import Goiardi.Base.Text
import Mathlib.Data.List.AList

/-! Objects stored under keys, in a store that hands out copies or in one that hands out the stored object itself.

Every cell carries the identity of its object. In the sharing mode an assignment to an object is seen under every key
that stores it; in the copying mode it is seen by nobody until the object is put again. -/

namespace Goiardi

open List Option AList

inductive Mode
  | copying
  | sharing
deriving DecidableEq

structure Cell (α : Type) where
  id : ℕ
  val : α
deriving DecidableEq

structure Shelf (α : Type) where
  cells : AList fun _ : Text => Cell α
  next : ℕ
  below : ∀ k c, cells.lookup k = some c → c.id < next
  coherent : ∀ k k' c c', cells.lookup k = some c → cells.lookup k' = some c' → c.id = c'.id → c = c'

namespace Shelf

variable {α : Type}

def empty : Shelf α := ⟨∅, 0, by simp, by simp⟩

lemma ext_cells {s t : Shelf α} (hc : s.cells = t.cells) (hn : s.next = t.next) : s = t := by
  cases s
  cases t
  cases hc
  cases hn
  rfl

def get (s : Shelf α) (k : Text) : Option (Cell α) := s.cells.lookup k

def find (s : Shelf α) (k : Text) : Option α := (s.get k).map Cell.val

def fresh (s : Shelf α) (v : α) : Cell α := ⟨s.next, v⟩

def Loose (s : Shelf α) (c : Cell α) : Prop := ∀ k d, s.get k = some d → d.id ≠ c.id

def Synced (s : Shelf α) (c : Cell α) : Prop := ∀ k d, s.get k = some d → d.id = c.id → d = c

lemma loose_fresh (s : Shelf α) (v : α) : s.Loose (s.fresh v) := by
  intro k d hd
  have hlt := s.below k d hd
  have hid : (s.fresh v).id = s.next := rfl
  omega

lemma Loose.synced {s : Shelf α} {c : Cell α} (h : s.Loose c) : s.Synced c := fun k d hd hid => absurd hid (h k d hd)

lemma synced_get {s : Shelf α} {k : Text} {c : Cell α} (h : s.get k = some c) : s.Synced c := fun k' d hd hid =>
  s.coherent k' k d c hd h hid

section

variable (mode : Mode) (s : Shelf α)

def remove (k : Text) : Shelf α where
  cells := s.cells.erase k
  next := s.next
  below k' c h := by
    by_cases hk : k' = k
    · subst hk
      simp at h
    · rw [lookup_erase_ne hk] at h
      exact s.below k' c h
  coherent k₁ k₂ c₁ c₂ h₁ h₂ := by
    have hback : ∀ {j c}, (s.cells.erase k).lookup j = some c → s.cells.lookup j = some c := by
      intro j c hc
      by_cases hj : j = k
      · subst hj
        simp at hc
      · rwa [lookup_erase_ne hj] at hc
    exact s.coherent k₁ k₂ c₁ c₂ (hback h₁) (hback h₂)

def insertCell (k : Text) (c : Cell α) (hc : s.Synced c) : Shelf α where
  cells := s.cells.insert k c
  next := max s.next (c.id + 1)
  below k' d h := by
    by_cases hk : k' = k
    · subst hk
      rw [lookup_insert] at h
      cases h
      omega
    · rw [lookup_insert_ne hk] at h
      have hd := s.below k' d h
      omega
  coherent k₁ k₂ c₁ c₂ h₁ h₂ hid := by
    have hcell : ∀ {j d}, (s.cells.insert k c).lookup j = some d → d = c ∨ s.cells.lookup j = some d := by
      intro j d hd
      by_cases hj : j = k
      · subst hj
        rw [lookup_insert] at hd
        exact .inl (some.inj hd).symm
      · rw [lookup_insert_ne hj] at hd
        exact .inr hd
    rcases hcell h₁ with rfl | h₁' <;> rcases hcell h₂ with rfl | h₂'
    · rfl
    · exact (hc k₂ c₂ h₂' hid.symm).symm
    · exact hc k₁ c₁ h₁' hid
    · exact s.coherent k₁ k₂ c₁ c₂ h₁' h₂' hid

def updateCell (id : ℕ) (v : α) (c : Cell α) : Cell α := if c.id = id then ⟨id, v⟩ else c

lemma updateCell_id (id : ℕ) (v : α) (c : Cell α) : (updateCell id v c).id = c.id := by
  unfold updateCell
  split
  · next h => exact h.symm
  · rfl

def mapCells (f : Cell α → Cell α) (hf : ∀ c, (f c).id = c.id) : Shelf α where
  cells := ⟨s.cells.entries.map fun e => ⟨e.1, f e.2⟩, by
    have hk : (s.cells.entries.map fun e : Sigma (fun _ : Text => Cell α) => (⟨e.1, f e.2⟩ : Sigma fun _ => Cell α)).keys =
        s.cells.entries.keys := by simp [List.keys, Function.comp_def]
    rw [List.NodupKeys, hk]
    exact s.cells.nodupKeys⟩
  next := s.next
  below k c h := by
    rw [← Option.mem_def, AList.mem_lookup_iff] at h
    simp only [List.mem_map, Sigma.mk.injEq, heq_eq_eq] at h
    obtain ⟨e, he, rfl, rfl⟩ := h
    rw [hf]
    exact s.below e.1 e.2 (Option.mem_def.mp (AList.mem_lookup_iff.mpr he))
  coherent k k' c c' h h' hid := by
    rw [← Option.mem_def, AList.mem_lookup_iff] at h h'
    simp only [List.mem_map, Sigma.mk.injEq, heq_eq_eq] at h h'
    obtain ⟨e, he, rfl, rfl⟩ := h
    obtain ⟨e', he', rfl, rfl⟩ := h'
    rw [hf, hf] at hid
    rw [s.coherent e.1 e'.1 e.2 e'.2 (mem_def.mp (mem_lookup_iff.mpr he))
      (mem_def.mp (mem_lookup_iff.mpr he')) hid]

def assign (c : Cell α) (v : α) : Shelf α :=
  match mode with
  | .copying => s
  | .sharing => s.mapCells (updateCell c.id v) (updateCell_id c.id v)

def count (p : α → Bool) : ℕ := s.cells.entries.countP fun e => p e.2.val

end

section

variable {mode : Mode} {s : Shelf α} {k k' n : Text} {c d : Cell α} {v : α}

@[simp] lemma get_empty : (empty : Shelf α).get k = none := rfl

lemma find_eq_some : s.find k = some v ↔ ∃ c, s.get k = some c ∧ c.val = v := by simp [find]

lemma find_eq_none : s.find k = none ↔ s.get k = none := by simp [find]

lemma find_of_get (h : s.get k = some c) : s.find k = some c.val := find_eq_some.mpr ⟨c, h, rfl⟩

@[simp] lemma get_remove_self : (s.remove k).get k = none := lookup_erase k s.cells

@[simp] lemma get_remove_of_ne (h : k' ≠ k) : (s.remove k).get k' = s.get k' := lookup_erase_ne h

lemma get_remove_of_none (h : s.get k' = none) : (s.remove k).get k' = none := by
  by_cases hk : k' = k
  · rw [hk, get_remove_self]
  · rw [get_remove_of_ne hk, h]

@[simp] lemma find_remove_self : (s.remove k).find k = none := by rw [find, get_remove_self, map_none]

@[simp] lemma find_remove_of_ne (h : k' ≠ k) : (s.remove k).find k' = s.find k' := by
  rw [find, get_remove_of_ne h, find]

lemma find_remove : (s.remove k).find k' = if k' = k then none else s.find k' := by
  split
  · next h => rw [h, find_remove_self]
  · next h => exact find_remove_of_ne h

lemma remove_eq_self (h : s.get k = none) : s.remove k = s := by
  have hk : k ∉ s.cells.entries.keys := by
    have := lookup_eq_none.mp h
    exact this
  refine ext_cells (AList.ext ?_) rfl
  exact kerase_of_notMem_keys hk

lemma get_insertCell_self (hc : s.Synced c) : (s.insertCell k c hc).get k = some c := lookup_insert s.cells

lemma get_insertCell_of_ne (hc : s.Synced c) (h : k' ≠ k) : (s.insertCell k c hc).get k' = s.get k' :=
  lookup_insert_ne h

lemma mem_entries : s.get k = some c ↔ (⟨k, c⟩ : Sigma fun _ : Text => Cell α) ∈ s.cells.entries :=
  mem_lookup_iff

lemma get_mapCells {f : Cell α → Cell α} (hf : ∀ c, (f c).id = c.id) : (s.mapCells f hf).get k = (s.get k).map f := by
  refine Option.ext fun d => ?_
  have hl : d ∈ (s.mapCells f hf).get k ↔ ⟨k, d⟩ ∈ s.cells.entries.map fun e => (⟨e.1, f e.2⟩ : Sigma fun _ => Cell α) :=
    AList.mem_lookup_iff
  rw [← Option.mem_def, ← Option.mem_def, hl, Option.mem_map]
  simp only [Option.mem_def, mem_entries, List.mem_map, Sigma.mk.injEq, heq_eq_eq]
  constructor
  · rintro ⟨⟨k', e⟩, he, rfl, rfl⟩
    exact ⟨e, he, rfl⟩
  · rintro ⟨e, he, rfl⟩
    exact ⟨⟨k, e⟩, he, rfl, rfl⟩

lemma get_assign_sharing : (s.assign .sharing c v).get k = (s.get k).map (updateCell c.id v) :=
  get_mapCells (updateCell_id c.id v)

@[simp] lemma assign_copying : s.assign .copying c v = s := rfl

lemma synced_assign : (s.assign .sharing c v).Synced ⟨c.id, v⟩ := by
  intro k d hd hid
  rw [get_assign_sharing] at hd
  obtain ⟨e, he, rfl⟩ := map_eq_some_iff.mp hd
  rw [updateCell_id] at hid
  rw [updateCell, if_pos hid]

lemma assign_eq_self (h : ∀ k d, s.get k = some d → d.id = c.id → d.val = v) : s.assign mode c v = s := by
  cases mode with
  | copying => rfl
  | sharing =>
    refine ext_cells (AList.ext ?_) rfl
    refine map_congr_left (g := id) (fun e he => ?_) |>.trans (map_id _)
    obtain ⟨k, d⟩ := e
    have hd : s.get k = some d := mem_entries.mpr he
    by_cases hid : d.id = c.id
    · have hv := h k d hd hid
      have hc : updateCell c.id v d = d := by
        rw [updateCell, if_pos hid]
        cases d
        cases hid
        cases hv
        rfl
      rw [hc, id]
    · rw [updateCell, if_neg hid, id]

lemma Synced.assign_eq (h : s.Synced c) : s.assign mode c c.val = s :=
  assign_eq_self fun k d hd hid => congrArg Cell.val (h k d hd hid)

lemma Loose.assign_eq (h : s.Loose c) : s.assign mode c v = s :=
  assign_eq_self fun k d hd hid => absurd hid (h k d hd)

lemma assign_assign {u t : α} : (s.assign mode c u).assign mode ⟨c.id, t⟩ v = s.assign mode c v := by
  cases mode with
  | copying => rfl
  | sharing =>
    refine ext_cells (AList.ext ?_) rfl
    refine (List.map_map ..).trans (List.map_congr_left fun e _ => ?_)
    have hc : updateCell c.id v (updateCell c.id u e.2) = updateCell c.id v e.2 := by
      by_cases hid : e.2.id = c.id
      · rw [updateCell, updateCell_id, if_pos hid, updateCell, if_pos hid]
      · rw [updateCell, updateCell_id, if_neg hid, updateCell, if_neg hid, updateCell, if_neg hid]
    exact congrArg (Sigma.mk e.1) hc

lemma find_assign_eq_iff (hk : s.get k = some c) :
    (∀ k', (s.assign mode c v).find k' = s.find k') ↔ (mode = .sharing → v = c.val) := by
  cases mode with
  | copying => simp
  | sharing =>
    constructor
    · intro h _
      have hs := h k
      rw [find, get_assign_sharing, hk, find_of_get hk] at hs
      simpa [updateCell] using hs
    · intro h k'
      rw [h rfl, (synced_get hk).assign_eq]

lemma find_remove_eq_iff : (∀ k', (s.remove k).find k' = s.find k') ↔ s.get k = none := by
  constructor
  · intro h
    rw [← find_eq_none, ← h k, find_remove_self]
  · intro h k'
    rw [remove_eq_self h]

lemma isSome_get_assign : ((s.assign mode c v).get k).isSome = (s.get k).isSome := by
  cases mode with
  | copying => rfl
  | sharing => rw [get_assign_sharing, isSome_map]

lemma count_assign {p : α → Bool} (h : ∀ k d, s.get k = some d → d.id = c.id → p d.val = p v) :
    (s.assign mode c v).count p = s.count p := by
  cases mode with
  | copying => rfl
  | sharing =>
    refine (countP_map ..).trans (countP_congr fun e he => ?_)
    have hd : s.get e.1 = some e.2 := mem_entries.mpr he
    by_cases hid : e.2.id = c.id
    · have hp := h e.1 e.2 hd hid
      simp [updateCell, hid, hp]
    · simp [updateCell, hid]

end

section

variable (mode : Mode) (s : Shelf α)

def put (k : Text) (c : Cell α) : Shelf α :=
  match mode with
  | .copying => s.insertCell k (s.fresh c.val) (loose_fresh s c.val).synced
  | .sharing => (s.assign .sharing c c.val).insertCell k c synced_assign

variable {mode s} {k k' n : Text} {c d : Cell α} {v : α}

lemma get_put_of_ne (h : k' ≠ k) : (s.put mode k c).get k' = (s.assign mode c c.val).get k' := by
  cases mode with
  | copying => exact get_insertCell_of_ne (loose_fresh s c.val).synced h
  | sharing => exact get_insertCell_of_ne synced_assign h

@[simp] lemma find_put_self : (s.put mode k c).find k = some c.val := by
  cases mode <;> simp [find, put, get_insertCell_self, fresh]

lemma Synced.get_put_of_ne (hc : s.Synced c) (h : k' ≠ k) : (s.put mode k c).get k' = s.get k' := by
  rw [Shelf.get_put_of_ne h, hc.assign_eq]

lemma Synced.find_put (hc : s.Synced c) : (s.put mode k c).find k' = if k' = k then some c.val else s.find k' := by
  split
  · next h => rw [h, find_put_self]
  · next h => rw [find, hc.get_put_of_ne h, find]

lemma find_put_copying : (s.put .copying k c).find k' = if k' = k then some c.val else s.find k' := by
  split
  · next h => rw [h, find_put_self]
  · next h => rw [find, get_put_of_ne h, assign_copying, find]

lemma isSome_get_put : ((s.put mode k c).get k').isSome = (decide (k' = k) || (s.get k').isSome) := by
  by_cases h : k' = k
  · subst h
    have hs : (s.put mode k' c).find k' = some c.val := find_put_self
    obtain ⟨d, hd, -⟩ := find_eq_some.mp hs
    rw [hd, decide_eq_true rfl]
    rfl
  · rw [get_put_of_ne h, isSome_get_assign, decide_eq_false h, Bool.false_or]

lemma get_assign_put (h : k' ≠ k) : ((s.assign mode c v).put mode k ⟨c.id, v⟩).get k' = (s.assign mode c v).get k' := by
  rw [get_put_of_ne h, assign_assign]

end

section

variable {name : α → Text} {mode : Mode} {s : Shelf α} {k k' n : Text} {c d : Cell α} {v : α}

structure Tidy (name : α → Text) (s : Shelf α) : Prop where
  named : ∀ k c, s.get k = some c → name c.val = k
  distinct : ∀ k k' c c', s.get k = some c → s.get k' = some c' → c.id = c'.id → k = k'

lemma tidy_empty : Tidy name (empty : Shelf α) := ⟨by simp, by simp⟩

lemma Tidy.find_name (h : Tidy name s) (hv : s.find k = some v) : name v = k := by
  obtain ⟨c, hc, rfl⟩ := find_eq_some.mp hv
  exact h.named k c hc

lemma Tidy.remove (h : Tidy name s) (n : Text) : Tidy name (s.remove n) := by
  have hg : ∀ {k c}, (s.remove n).get k = some c → s.get k = some c := by
    intro k c hc
    by_cases hk : k = n
    · subst hk
      simp at hc
    · rwa [get_remove_of_ne hk] at hc
  exact ⟨fun k c hc => h.named k c (hg hc), fun k k' c c' hc hc' => h.distinct k k' c c' (hg hc) (hg hc')⟩

lemma Tidy.loose_remove (h : Tidy name s) (hc : s.get n = some c) (hd : d.id = c.id) : (s.remove n).Loose d := by
  intro k e he hid
  have hk : k ≠ n := by
    rintro rfl
    simp at he
  rw [get_remove_of_ne hk] at he
  exact hk (h.distinct k n e c he hc (hid.trans hd))

lemma Tidy.get_assign (h : Tidy name s) (hc : s.get n = some c) (hd : d.id = c.id) :
    (s.assign mode d v).get k = if k = n ∧ mode = .sharing then some ⟨c.id, v⟩ else s.get k := by
  cases mode with
  | copying => simp
  | sharing =>
    rw [get_assign_sharing]
    by_cases hk : k = n
    · subst hk
      simp [hc, updateCell, hd]
    · cases hg : s.get k with
      | none => simp [hk]
      | some e =>
        have hne : e.id ≠ d.id := fun hid => hk (h.distinct k n e c hg hc (hid.trans hd))
        simp [hk, updateCell, hne]

lemma Tidy.find_assign (h : Tidy name s) (hc : s.get n = some c) (hd : d.id = c.id) :
    (s.assign mode d v).find k = if k = n ∧ mode = .sharing then some v else s.find k := by
  rw [find, h.get_assign hc hd]
  split <;> rfl

lemma Tidy.assign (h : Tidy name s) (hc : s.get n = some c) (hd : d.id = c.id) (hv : name v = n) :
    Tidy name (s.assign mode d v) := by
  constructor
  · intro k e he
    rw [h.get_assign hc hd] at he
    split at he
    · next hk =>
      cases he
      exact hv.trans hk.1.symm
    · exact h.named k e he
  · intro k k' e e' he he' hid
    have hb : ∀ {j f}, (s.assign mode d v).get j = some f → ∃ g, s.get j = some g ∧ g.id = f.id := by
      intro j f hf
      rw [h.get_assign hc hd] at hf
      split at hf
      · next hj =>
        cases hf
        exact ⟨c, by rw [hj.1, hc], rfl⟩
      · exact ⟨f, hf, rfl⟩
    obtain ⟨g, hg, hgd⟩ := hb he
    obtain ⟨g', hg', hgd'⟩ := hb he'
    exact h.distinct k k' g g' hg hg' (by omega)

lemma Tidy.put (h : Tidy name s) (hn : name c.val = k) (hc : ∀ k', k' ≠ k → (s.put mode k c).get k' = s.get k')
    (hid : mode = .sharing → ∀ k' d, s.get k' = some d → d.id = c.id → k' = k) : Tidy name (s.put mode k c) := by
  obtain ⟨e, he, hv, hf⟩ : ∃ e : Cell α, (s.put mode k c).get k = some e ∧ e.val = c.val ∧
      ∀ k' d, s.get k' = some d → d.id = e.id → k' = k := by
    cases mode with
    | copying =>
      refine ⟨s.fresh c.val, get_insertCell_self (loose_fresh s c.val).synced, rfl, fun k' d hd hid => ?_⟩
      exact absurd hid (loose_fresh s c.val k' d hd)
    | sharing => exact ⟨c, get_insertCell_self synced_assign, rfl, hid rfl⟩
  constructor
  · intro k' d hd
    by_cases hk : k' = k
    · subst hk
      rw [he] at hd
      cases hd
      rw [hv, hn]
    · rw [hc k' hk] at hd
      exact h.named k' d hd
  · intro k₁ k₂ d₁ d₂ h₁ h₂ hi
    by_cases hk₁ : k₁ = k <;> by_cases hk₂ : k₂ = k
    · rw [hk₁, hk₂]
    · subst hk₁
      rw [he] at h₁
      cases h₁
      rw [hc k₂ hk₂] at h₂
      exact absurd (hf k₂ d₂ h₂ hi.symm) hk₂
    · subst hk₂
      rw [he] at h₂
      cases h₂
      rw [hc k₁ hk₁] at h₁
      exact absurd (hf k₁ d₁ h₁ hi) hk₁
    · rw [hc k₁ hk₁] at h₁
      rw [hc k₂ hk₂] at h₂
      exact h.distinct k₁ k₂ d₁ d₂ h₁ h₂ hi

lemma Tidy.put_loose (h : Tidy name s) (hl : s.Loose c) (mode : Mode) : Tidy name (s.put mode (name c.val) c) :=
  h.put rfl (fun _ hk => hl.synced.get_put_of_ne hk) fun _ k d hd hid => absurd hid (hl k d hd)

lemma Tidy.put_copying (h : Tidy name s) (c : Cell α) : Tidy name (s.put .copying (name c.val) c) :=
  h.put rfl (fun _ hk => get_put_of_ne hk) fun hm => nomatch hm

lemma Tidy.put_fresh (h : Tidy name s) (mode : Mode) (v : α) : Tidy name (s.put mode (name v) (s.fresh v)) :=
  h.put_loose (loose_fresh s v) mode

lemma Tidy.assign_put (h : Tidy name s) (hc : s.get n = some c) (hv : name v = n) :
    Tidy name ((s.assign mode c v).put mode n ⟨c.id, v⟩) := by
  refine (h.assign hc rfl hv).put hv (fun k hk => get_assign_put hk) fun _ k d hd hid => ?_
  rw [h.get_assign hc rfl] at hd
  split at hd
  · next hk => exact hk.1
  · exact h.distinct k n d c hd hc hid

lemma Tidy.find_assign_put (h : Tidy name s) (hc : s.get n = some c) :
    ((s.assign mode c v).put mode n ⟨c.id, v⟩).find k = if k = n then some v else s.find k := by
  split
  · next hk => rw [hk, find_put_self]
  · next hk =>
    rw [find, get_assign_put hk, h.get_assign hc rfl, if_neg (fun hn => hk hn.1), find]

end

section

variable {s : Shelf α} {p : α → Bool} {k : Text} {v : α}

lemma count_ne_zero (hk : s.find k = some v) (hv : p v = true) : s.count p ≠ 0 := by
  obtain ⟨c, hg, rfl⟩ := find_eq_some.mp hk
  intro hz
  exact countP_eq_zero.mp hz _ (mem_entries.mp hg) hv

lemma exists_other_of_count (hk : s.find k = some v) (hv : p v = true) (hc : s.count p ≠ 1) :
    ∃ k' v', k' ≠ k ∧ s.find k' = some v' ∧ p v' = true := by
  obtain ⟨c, hg, rfl⟩ := find_eq_some.mp hk
  by_contra hno
  push Not at hno
  -- every counted entry is the one under `k`
  have ha : ∀ e ∈ s.cells.entries.filter fun e => p e.2.val, e = ⟨k, c⟩ := by
    rintro ⟨k', d⟩ he
    obtain ⟨hm, hp⟩ := mem_filter.mp he
    have hd : s.get k' = some d := mem_entries.mpr hm
    have hkk : k' = k := by
      by_contra hne
      exact hno k' d.val hne (find_eq_some.mpr ⟨d, hd, rfl⟩) hp
    subst hkk
    rw [hg] at hd
    cases hd
    rfl
  have hn := (List.NodupKeys.nodup s.cells.nodupKeys).filter fun e => p e.2.val
  have hin : (⟨k, c⟩ : Sigma fun _ : Text => Cell α) ∈ s.cells.entries.filter fun e => p e.2.val :=
    mem_filter.mpr ⟨mem_entries.mp hg, hv⟩
  rw [count, countP_eq_length_filter] at hc
  cases hl : s.cells.entries.filter fun e => p e.2.val with
  | nil => simp [hl] at hin
  | cons e l =>
    rw [hl] at hc ha hn
    cases l with
    | nil => exact hc rfl
    | cons e' l =>
      have h₁ := ha e (.head _)
      have h₂ := ha e' (.tail _ (.head _))
      rw [h₁, h₂] at hn
      simp at hn

end

end Shelf

end Goiardi
