import Goiardi.Base.Text
import Mathlib.Data.List.AList

/-! Codecs in the manner of the gob encoding. A record is sent as its fields by name, without those that have the zero
value; a value of an interface type is sent with the name of its own type, which has to be known. A codec carries what
arrives of a value that is sent. -/

namespace Goiardi.Gob

open List

inductive Wire
  | bool (b : Bool)
  | int (n : ℤ)
  | text (t : Text)
  | bytes (bs : List UInt8)
  | seq (ws : List Wire)
  | map (es : List (Text × Wire))
  | record (fields : List (Text × Wire))
  | dynamic (type : Text) (w : Wire)
  | nil

section

variable (types : List Text)

mutual

def Wire.known : Wire → Bool
  | .seq ws => knownAll ws
  | .map es => knownEntries es
  | .record fields => knownEntries fields
  | .dynamic type w => type ∈ types && w.known
  | _ => true

def knownAll : List Wire → Bool
  | [] => true
  | w :: ws => w.known && knownAll ws

def knownEntries : List (Text × Wire) → Bool
  | [] => true
  | (_, w) :: es => w.known && knownEntries es

end

variable {types}

lemma knownAll_iff {ws : List Wire} : knownAll types ws = true ↔ ∀ w ∈ ws, w.known types = true := by
  induction ws with
  | nil => simp [knownAll]
  | cons w ws ih => simp [knownAll, ih]

lemma knownEntries_iff {es : List (Text × Wire)} : knownEntries types es = true ↔ ∀ e ∈ es, e.2.known types = true := by
  induction es with
  | nil => simp [knownEntries]
  | cons e es ih => simp [knownEntries, ih]

end

structure Codec (types : List Text) (α : Type) where
  enc : α → Wire
  dec : Wire → Except Text α
  zero : α
  omitted : α → Bool
  kept : α → α
  arrives : ∀ a, dec (enc a) = .ok (kept a)
  omits : ∀ a, omitted a = true → kept a = zero
  knows : ∀ a, (enc a).known types = true

def mismatch : Text := "gob: type mismatch"

variable {types : List Text} {α β : Type}

lemma mapM_map_ok {γ : Type} {f : α → β} {g : β → Except Text γ} {h : α → γ} (hg : ∀ a, g (f a) = .ok (h a))
    (l : List α) : (l.map f).mapM g = .ok (l.map h) := by
  rw [mapM_eq_ok_iff, forall₂_map_left_iff, forall₂_map_right_iff, forall₂_same]
  exact fun a _ => hg a

namespace Codec

def bool : Codec types Bool where
  enc := .bool
  dec
    | .bool b => .ok b
    | _ => .error mismatch
  zero := false
  omitted b := !b
  kept := id
  arrives _ := rfl
  omits b h := by simpa using h
  knows _ := rfl

def int : Codec types ℤ where
  enc := .int
  dec
    | .int n => .ok n
    | _ => .error mismatch
  zero := 0
  omitted n := n = 0
  kept := id
  arrives _ := rfl
  omits n h := by simpa using h
  knows _ := rfl

def byte : Codec types UInt8 where
  enc b := .int b.toNat
  dec
    | .int n => .ok (UInt8.ofNat n.toNat)
    | _ => .error mismatch
  zero := 0
  omitted b := b = 0
  kept := id
  arrives b := by simp
  omits n h := by simpa using h
  knows _ := rfl

def text : Codec types Text where
  enc := .text
  dec
    | .text t => .ok t
    | _ => .error mismatch
  zero := []
  omitted t := t = []
  kept := id
  arrives _ := rfl
  omits t h := by simpa using h
  knows _ := rfl

def bytes : Codec types (List UInt8) where
  enc := .bytes
  dec
    | .bytes bs => .ok bs
    | _ => .error mismatch
  zero := []
  omitted bs := bs = []
  kept := id
  arrives _ := rfl
  omits t h := by simpa using h
  knows _ := rfl

@[simp] lemma kept_bool (b : Bool) : (bool : Codec types Bool).kept b = b := rfl

@[simp] lemma kept_int (n : ℤ) : (int : Codec types ℤ).kept n = n := rfl

@[simp] lemma kept_byte (b : UInt8) : (byte : Codec types UInt8).kept b = b := rfl

@[simp] lemma kept_text (t : Text) : (text : Codec types Text).kept t = t := rfl

@[simp] lemma kept_bytes (bs : List UInt8) : (bytes : Codec types (List UInt8)).kept bs = bs := rfl

section

variable (c : Codec types α)

def list : Codec types (List α) where
  enc l := .seq (l.map c.enc)
  dec
    | .seq ws => ws.mapM c.dec
    | _ => .error mismatch
  zero := []
  omitted l := l.isEmpty
  kept l := l.map c.kept
  arrives l := mapM_map_ok c.arrives l
  omits l h := by rw [isEmpty_iff.mp h, map_nil]
  knows l := by
    refine knownAll_iff.mpr fun w hw => ?_
    obtain ⟨a, -, rfl⟩ := mem_map.mp hw
    exact c.knows a

def assoc : Codec types (List (Text × α)) where
  enc l := .map (l.map fun e => (e.1, c.enc e.2))
  dec
    | .map es => es.mapM fun e => (c.dec e.2).map fun a => (e.1, a)
    | _ => .error mismatch
  zero := []
  omitted l := l.isEmpty
  kept l := l.map fun e => (e.1, c.kept e.2)
  arrives l := mapM_map_ok (fun e => by rw [c.arrives]; rfl) l
  omits l h := by rw [isEmpty_iff.mp h, map_nil]
  knows l := by
    refine knownEntries_iff.mpr fun e he => ?_
    obtain ⟨x, -, rfl⟩ := mem_map.mp he
    exact c.knows x.2

lemma dedupKeys_eq_self {l : List (Sigma fun _ : Text => α)} (h : l.NodupKeys) : l.dedupKeys = l := by
  induction l with
  | nil => rfl
  | cons x l ih =>
    obtain ⟨hx, hl⟩ := nodupKeys_cons.mp h
    rw [dedupKeys_cons, ih hl, kinsert_def, kerase_of_notMem_keys hx]

def mapValues (f : α → β) (t : AList fun _ : Text => α) : AList fun _ : Text => β where
  entries := t.entries.map fun e => ⟨e.1, f e.2⟩
  nodupKeys := by
    have hkeys : (t.entries.map fun e : Sigma (fun _ : Text => α) => (⟨e.1, f e.2⟩ : Sigma fun _ => β)).keys =
        t.entries.keys := by simp [List.keys, Function.comp_def]
    rw [List.NodupKeys, hkeys]
    exact t.nodupKeys

def table : Codec types (AList fun _ : Text => α) where
  enc t := .map (t.entries.map fun e => (e.1, c.enc e.2))
  dec
    | .map es => (es.mapM fun e => (c.dec e.2).map fun a => (⟨e.1, a⟩ : Sigma fun _ : Text => α)).map List.toAList
    | _ => .error mismatch
  zero := ∅
  omitted t := t.entries.isEmpty
  kept := mapValues c.kept
  arrives t := by
    have hentries : (t.entries.map fun e => (e.1, c.enc e.2)).mapM
        (fun e => (c.dec e.2).map fun a => (⟨e.1, a⟩ : Sigma fun _ : Text => α)) = .ok (mapValues c.kept t).entries :=
      mapM_map_ok (fun e => by rw [c.arrives]; rfl) t.entries
    have htable : (mapValues c.kept t).entries.toAList = mapValues c.kept t :=
      AList.ext (dedupKeys_eq_self (mapValues c.kept t).nodupKeys)
    simp only [hentries]
    exact congrArg Except.ok htable
  omits t h := AList.ext (by simp [mapValues, isEmpty_iff.mp h])
  knows t := by
    refine knownEntries_iff.mpr fun e he => ?_
    obtain ⟨x, -, rfl⟩ := mem_map.mp he
    exact c.knows x.2

variable {c}

lemma kept_list (h : ∀ a, c.kept a = a) (l : List α) : (list c).kept l = l :=
  (map_congr_left fun a _ => h a).trans l.map_id

lemma kept_assoc (h : ∀ a, c.kept a = a) (l : List (Text × α)) : (assoc c).kept l = l := by
  refine (map_congr_left (g := id) fun e _ => ?_).trans l.map_id
  rw [h]
  rfl

lemma kept_table (h : ∀ a, c.kept a = a) (t : AList fun _ : Text => α) : (table c).kept t = t := by
  have hid : c.kept = id := funext h
  exact (congrArg (mapValues · t) hid).trans (AList.ext (map_id _))

end

end Codec

/-- A field of a record: what is sent of it, and what receiving it does to the record that is being built. -/
structure Field (types : List Text) (α : Type) where
  name : Text
  send : α → Option Wire
  receive : Option Wire → α → Except Text α
  copy : α → α → α
  arrives : ∀ a t, receive (send a) t = .ok (copy a t)
  knows : ∀ a w, send a = some w → w.known types = true

namespace Field

def of (name : String) (c : Codec types β) (get : α → β) (set : β → α → α) : Field types α where
  name := name.toList
  send a := if c.omitted (get a) then none else some (c.enc (get a))
  receive o t :=
    match o with
    | none => .ok (set c.zero t)
    | some w => (c.dec w).map fun b => set b t
  copy a t := set (c.kept (get a)) t
  arrives a t := by
    by_cases h : c.omitted (get a) = true
    · simp only [if_pos h, c.omits _ h]
    · simp only [if_neg h, c.arrives]
      rfl
  knows a w h := by
    split at h
    · cases h
    · cases h
      exact c.knows _

def unset (name : String) : Field types α where
  name := name.toList
  send _ := none
  receive _ t := .ok t
  copy _ t := t
  arrives _ _ := rfl
  knows _ _ h := nomatch h

@[simp] lemma copy_of (name : String) (c : Codec types β) (get : α → β) (set : β → α → α) (a t : α) :
    (of name c get set).copy a t = set (c.kept (get a)) t := rfl

@[simp] lemma copy_unset (name : String) (a t : α) : (unset name : Field types α).copy a t = t := rfl

end Field

section

variable {fs : List (Field types α)}

def sent (fs : List (Field types α)) (a : α) : List (Text × Wire) :=
  fs.filterMap fun f => (f.send a).map fun w => (f.name, w)

lemma sent_cons (f : Field types α) (fs : List (Field types α)) (a : α) :
    sent (f :: fs) a = ((f.send a).map fun w => (f.name, w)).toList ++ sent fs a := by
  rw [sent, filterMap_cons, ← sent]
  cases f.send a <;> rfl

lemma lookup_sent_of_notMem {n : Text} (h : n ∉ fs.map Field.name) (a : α) : (sent fs a).lookup n = none := by
  induction fs with
  | nil => rfl
  | cons f fs ih =>
    have hne : n ≠ f.name := fun heq => h (heq ▸ .head _)
    have hr : n ∉ fs.map Field.name := fun hm => h (.tail _ hm)
    have hb : (n == f.name) = false := by simpa using hne
    rw [sent_cons]
    cases f.send a with
    | none => exact ih hr
    | some w => simp [lookup_cons, hb, ih hr]

lemma lookup_sent (hn : (fs.map Field.name).Nodup) (a : α) {f : Field types α} (hf : f ∈ fs) :
    (sent fs a).lookup f.name = f.send a := by
  induction fs with
  | nil => cases hf
  | cons g fs ih =>
    obtain ⟨hg, hfs⟩ := nodup_cons.mp hn
    rw [sent_cons]
    obtain rfl | hf := mem_cons.mp hf
    · cases hs : f.send a with
      | none => exact lookup_sent_of_notMem hg a
      | some w => simp
    · have hne : f.name ≠ g.name := fun h => hg (h ▸ mem_map_of_mem hf)
      have hb : (f.name == g.name) = false := by simpa using hne
      cases g.send a with
      | none => exact ih hfs hf
      | some w => simp [lookup_cons, hb, ih hfs hf]

lemma foldlM_ok {g : β → Field types α → Except Text β} {h : β → Field types α → β}
    (hg : ∀ f ∈ fs, ∀ t, g t f = .ok (h t f)) (z : β) : fs.foldlM g z = .ok (fs.foldl h z) := by
  induction fs generalizing z with
  | nil => rfl
  | cons f fs ih =>
    rw [foldlM_cons, hg f (.head _)]
    exact ih (fun f' hf' => hg f' (.tail _ hf')) _

def Codec.record (zero : α) (fs : List (Field types α)) (hnodup : (fs.map Field.name).Nodup) : Codec types α where
  enc a := .record (sent fs a)
  dec
    | .record fields => fs.foldlM (fun t f => f.receive (fields.lookup f.name) t) zero
    | _ => .error mismatch
  zero := zero
  omitted _ := false
  kept a := fs.foldl (fun t f => f.copy a t) zero
  arrives a := foldlM_ok (fun f hf t => by rw [lookup_sent hnodup a hf, f.arrives]) zero
  omits _ h := nomatch h
  knows a := by
    refine knownEntries_iff.mpr fun e he => ?_
    obtain ⟨f, -, hf⟩ := mem_filterMap.mp he
    obtain ⟨w, hw, rfl⟩ := Option.map_eq_some_iff.mp hf
    exact f.knows a w hw

lemma Codec.kept_record (zero : α) (fs : List (Field types α)) (hn : (fs.map Field.name).Nodup) (a : α) :
    (Codec.record zero fs hn).kept a = fs.foldl (fun t f => f.copy a t) zero := rfl

end

end Goiardi.Gob
