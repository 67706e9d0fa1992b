import Goiardi.DataBags.Items
import Goiardi.Indexing.Lines

/-! The keys and values that `DeepMerge` makes of a JSON value before it is indexed. -/

namespace Goiardi.Indexing

open Validation

abbrev Entry := Sigma fun _ : Text => FlatValue

/-- The settings that `DeepMerge` reads, and the order in which a run goes through a map that was made on the way. -/
structure Flattening where
  dotSearch : Bool
  usePostgreSQL : Bool
  order : Flattened → List Entry
  perm : ∀ m, (order m).Perm m.entries

def FlatValue.texts : FlatValue → List Text
  | text t => [t]
  | list ts => ts

namespace Flattening

variable (cfg : Flattening)

def sep : Char := if cfg.dotSearch then '.' else '_'

def getNKey (key subkey : Text) : Text := if key = [] then subkey else key ++ cfg.sep :: subkey

def merge (merger nm : Flattened) : Flattened := (cfg.order nm).foldl (fun m e => m.insert e.1 e.2) merger

def mergeChildren (key : Text) (mapMerge : Flattened) (e : Entry) : Flattened :=
  mapMerge.insert (cfg.getNKey key e.1) (.list (mapMerge.values (cfg.getNKey key e.1) ++ e.2.texts))

def mergeEntry (key : Text) (m : List Text × Flattened) (e : Entry) : List Text × Flattened :=
  if e.1 = [] then (m.1 ++ e.2.texts, m.2) else (m.1, cfg.mergeChildren key m.2 e)

mutual

def deepMerge (key : Text) : Json → Flattened
  | .obj fields =>
    let merger := mergeFields key ∅ fields
    if key ≠ [] ∧ ¬ cfg.usePostgreSQL then merger.insert key (.list (fields.map Prod.fst)) else merger
  | .arr items =>
    let m := mergeItems key ([], ∅) items
    m.2.insert key (.list m.1)
  | v => AList.singleton key (.text (sprint v))

def mergeFields (key : Text) (merger : Flattened) : List (Text × Json) → Flattened
  | [] => merger
  | (k, u) :: fields => mergeFields key (cfg.merge merger (deepMerge (cfg.getNKey key k) u)) fields

def mergeItems (key : Text) (m : List Text × Flattened) : List Json → List Text × Flattened
  | [] => m
  | w :: items =>
    let interMap := deepMerge [] w
    mergeItems key (match w with
      | .obj _ => (m.1, (cfg.order interMap).foldl (cfg.mergeChildren key) m.2)
      | .arr inner => mergeInner key m inner
      | _ => (m.1 ++ [sprint w], m.2)) items

def mergeInner (key : Text) (m : List Text × Flattened) : List Json → List Text × Flattened
  | [] => m
  | sv :: inner => mergeInner key ((cfg.order (deepMerge [] sv)).foldl (cfg.mergeEntry key) m) inner

end

/-- `DataBagItem.Flatten`. -/
def flattenItem (i : DataBags.DataBagItem) : Flattened := cfg.mergeFields [] ∅ i.rawData

end Flattening

end Goiardi.Indexing
