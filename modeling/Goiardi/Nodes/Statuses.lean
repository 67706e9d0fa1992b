import Goiardi.Base.Purging

/-! The node statuses of the in-memory store: a table of statuses by number, and for each node the numbers of its own.
Both tables are made by the first status. -/

namespace Goiardi.Nodes

open List Option AList

inductive StatusFault
  | error (message : Text)
  | panic (p : Panic)
deriving DecidableEq, Repr

structure StatusStore (α : Type) where
  objs : Option (AList fun _ : ℕ => α)
  lists : Option (AList fun _ : Text => List ℕ)

namespace StatusStore

variable {α : Type}

def noStatuses : StatusFault := .error "No statuses in the datastore"

def noStatusList : StatusFault := .error "No status lists in the datastore"

section

-- the encoder gives an error on some statuses
variable (enc : α → Option Text) (s : StatusStore α) (name : Text)

def find (i : ℕ) : Option α := (s.objs.getD ∅).lookup i

def ids : List ℕ := ((s.lists.getD ∅).lookup name).getD []

def nextID : ℕ := ((s.objs.getD ∅).keys.max?).elim 1 (· + 1)

def record (a : α) : StatusStore α where
  objs := some ((s.objs.getD ∅).insert s.nextID a)
  lists := some ((s.lists.getD ∅).insert name (s.ids name ++ [s.nextID]))

def setNodeStatus (a : α) : Except StatusFault Unit × StatusStore α :=
  match enc a with
  | some e => (.error (.error e), s)
  | none => (.ok (), s.record name a)

def allNodeStatuses : Except StatusFault (List α) :=
  match s.objs, s.lists with
  | none, _ => .error noStatuses
  | some _, none => .error noStatusList
  | some _, some _ => (s.ids name).mapM fun i =>
    match s.find i with
    | some a => .ok a
    | none => .error (.panic .typeAssertion)

/-- `LatestNodeStatus`, which sorts the stored list of the node as it reads it, the last status first. -/
def latestNodeStatus : Except StatusFault α × StatusStore α :=
  match s.objs, s.lists with
  | none, _ => (.error noStatuses, s)
  | some _, none => (.error noStatusList, s)
  | some objs, some lists =>
    match lists.lookup name with
    | none => (.error (.error ("no statuses found for node " ++ name)), s)
    | some is =>
      let sorted := is.insertionSort (· ≥ ·)
      let s' : StatusStore α := ⟨some objs, some (lists.insert name sorted)⟩
      match sorted with
      | [] => (.error (.panic .indexOutOfRange), s')
      | i :: _ =>
        match s.find i with
        | some a => (.ok a, s')
        | none => (.error (.panic .typeAssertion), s')

def latest : Option α := (s.latestNodeStatus name).1.toOption

def deleteStatuses : Except StatusFault Unit × StatusStore α :=
  match s.objs, s.lists with
  | none, _ => (.error noStatuses, s)
  | some _, none => (.error noStatusList, s)
  | some objs, some lists => (.ok (), ⟨some ((s.ids name).foldl (fun t i => t.erase i) objs), some (lists.erase name)⟩)

-- what was added before an error stays
def recordAll : List α → StatusStore α → Except StatusFault Unit × StatusStore α
  | [], s => (.ok (), s)
  | a :: as, s =>
    match enc a with
    | some e => (.error (.error e), s)
    | none => recordAll as (s.record name a)

def replaceNodeStatuses (as : List α) : Except StatusFault Unit × StatusStore α :=
  match s.deleteStatuses name with
  | (.error e, s) => (.error e, s)
  | (.ok (), s) => recordAll enc name as s

end

section

variable (enc : α → Option Text) {time : α → ℤ} (sorting : KeySort time)

def keptAfter (time : α → ℤ) (cutoff : ℤ) (sorted : List α) : List α :=
  sorted.drop (searchBy (fun a => decide (cutoff < time a)) sorted)

/-- The loop body of `DeleteNodeStatusesByAge`. -/
def purgeNode (s : StatusStore α) (name : Text) (cutoff : ℤ) : Except StatusFault ℕ × StatusStore α :=
  match s.allNodeStatuses name with
  | .error e => (.error e, s)
  | .ok statuses =>
    match sorting.sort statuses with
    | [] => (.ok 0, s)
    | first :: rest =>
      if cutoff < time first then (.ok 0, s)
      else
        match s.replaceNodeStatuses enc name (keptAfter time cutoff (first :: rest)) with
        | (.error e, s) => (.error e, s)
        | (.ok (), s) => (.ok (statuses.length - (keptAfter time cutoff (first :: rest)).length), s)

def deleteByAge : List (Text × ℤ) → StatusStore α → Except StatusFault ℕ × StatusStore α
  | [], s => (.ok 0, s)
  | (name, cutoff) :: nodes, s =>
    match purgeNode enc sorting s name cutoff with
    | (.error e, s) => (.error e, s)
    | (.ok j, s) =>
      match deleteByAge nodes s with
      | (.error e, s) => (.error e, s)
      | (.ok k, s) => (.ok (j + k), s)

end

def statuses (s : StatusStore α) (name : Text) : List α := (s.ids name).filterMap s.find

structure Consistent (enc : α → Option Text) (s : StatusStore α) : Prop where
  together : s.objs.isSome = s.lists.isSome
  listed : ∀ name, ∀ i ∈ s.ids name, (s.find i).isSome = true
  nodup : ∀ name, (s.ids name).Nodup
  disjoint : ∀ name name' i, i ∈ s.ids name → i ∈ s.ids name' → name = name'
  encodable : ∀ i a, s.find i = some a → enc a = none

variable {enc : α → Option Text} {s : StatusStore α} {name name' : Text} {a : α}

lemma find_nextID (s : StatusStore α) : s.find s.nextID = none := by
  rw [find, lookup_eq_none]
  intro hmm
  have hk : s.nextID ∈ (s.objs.getD ∅).keys := hmm
  cases hm : (s.objs.getD ∅).keys.max? with
  | none =>
    rw [List.max?_eq_none_iff.mp hm] at hk
    cases hk
  | some m =>
    have hle := le_max?_getD_of_mem (k := 0) hk
    rw [hm, getD_some, nextID, hm] at hle
    exact absurd hle (Nat.not_succ_le_self m)

lemma find_record (i : ℕ) : (s.record name a).find i = if i = s.nextID then some a else s.find i := by
  rw [find, record]
  split
  · next h => rw [h]; exact lookup_insert _
  · next h => exact lookup_insert_ne h

lemma ids_record (n : Text) : (s.record name a).ids n = if n = name then s.ids name ++ [s.nextID] else s.ids n := by
  rw [ids, record]
  split
  · next h => rw [h]; simp only [getD_some, lookup_insert]
  · next h => simp only [getD_some, lookup_insert_ne h]; rfl

lemma Consistent.nextID_notMem (hs : s.Consistent enc) (n : Text) : s.nextID ∉ s.ids n := by
  intro hm
  have hsm := hs.listed n _ hm
  rw [find_nextID] at hsm
  cases hsm

lemma Consistent.record (hs : s.Consistent enc) (name : Text) (ha : enc a = none) :
    (s.record name a).Consistent enc where
  together := rfl
  listed n i hi := by
    rw [find_record]
    split
    · rfl
    · next hne =>
      rw [ids_record] at hi
      split at hi
      · rcases mem_append.mp hi with hi | hi
        · exact hs.listed _ _ hi
        · exact absurd (mem_singleton.mp hi) hne
      · exact hs.listed _ _ hi
  nodup n := by
    rw [ids_record]
    split
    · refine nodup_append.mpr ⟨hs.nodup name, nodup_singleton _, fun i hi j hj hij => ?_⟩
      rw [hij, mem_singleton.mp hj] at hi
      exact hs.nextID_notMem name hi
    · exact hs.nodup n
  disjoint n m i hn hm := by
    rw [ids_record] at hn hm
    have ho : ∀ k, i ∈ s.ids k → i ≠ s.nextID := fun k hk heq => hs.nextID_notMem k (heq ▸ hk)
    split at hn <;> split at hm
    · next h₁ h₂ => rw [h₁, h₂]
    · next h₁ h₂ =>
      rcases mem_append.mp hn with hn | hn
      · exact h₁.trans (hs.disjoint _ _ i hn hm)
      · exact absurd (mem_singleton.mp hn) (ho m hm)
    · next h₁ h₂ =>
      rcases mem_append.mp hm with hm | hm
      · exact (hs.disjoint _ _ i hn hm).trans h₂.symm
      · exact absurd (mem_singleton.mp hm) (ho n hn)
    · exact hs.disjoint n m i hn hm
  encodable i b hb := by
    rw [find_record] at hb
    split at hb
    · cases hb
      exact ha
    · exact hs.encodable i b hb

lemma statuses_record (hs : s.Consistent enc) (n : Text) :
    (s.record name a).statuses n = if n = name then s.statuses name ++ [a] else s.statuses n := by
  have ho : ∀ k, (s.ids k).filterMap (s.record name a).find = s.statuses k := by
    intro k
    refine filterMap_congr fun i hi => ?_
    have hne : i ≠ s.nextID := fun heq => hs.nextID_notMem k (heq ▸ hi)
    rw [find_record, if_neg hne]
  rw [statuses, ids_record]
  split
  · rw [filterMap_append, ho, filterMap_cons_some ((find_record _).trans (if_pos rfl))]
    rfl
  · exact ho n

lemma lt_nextID {i : ℕ} (h : (s.find i).isSome = true) : i < s.nextID := by
  have hk : i ∈ (s.objs.getD ∅).keys := lookup_isSome.mp h
  have hle := le_max?_getD_of_mem (k := 0) hk
  rw [nextID]
  cases hm : (s.objs.getD ∅).keys.max? with
  | none => exact absurd (List.max?_eq_none_iff.mp hm) (ne_nil_of_mem hk)
  | some m =>
    rw [hm] at hle
    exact Nat.lt_succ_of_le hle

lemma insertionSort_ge_append {is : List ℕ} {i : ℕ} (h : ∀ j ∈ is, j < i) :
    ∃ tl, (is ++ [i]).insertionSort (· ≥ ·) = i :: tl := by
  have hp := perm_insertionSort (· ≥ ·) (is ++ [i])
  have hsr := pairwise_insertionSort (· ≥ ·) (is ++ [i])
  cases hs : (is ++ [i]).insertionSort (· ≥ ·) with
  | nil =>
    rw [hs] at hp
    simpa using hp.symm.eq_nil
  | cons j tl =>
    rw [hs] at hp hsr
    have hi : i ∈ j :: tl := hp.mem_iff.mpr (by simp)
    have hj : j ∈ is ++ [i] := hp.mem_iff.mp (.head _)
    rcases mem_append.mp hj with hj | hj
    · rcases mem_cons.mp hi with rfl | hi
      · exact ⟨tl, rfl⟩
      · exact absurd ((pairwise_cons.mp hsr).1 i hi) (not_le.mpr (h j hj))
    · rw [mem_singleton.mp hj]
      exact ⟨tl, rfl⟩

lemma Consistent.cases (hs : s.Consistent enc) : s = ⟨none, none⟩ ∨ ∃ objs lists, s = ⟨some objs, some lists⟩ := by
  have ht := hs.together
  rcases s with ⟨_ | objs, _ | lists⟩
  · exact .inl rfl
  · cases ht
  · cases ht
  · exact .inr ⟨objs, lists, rfl⟩

lemma latest_eq (hs : s.Consistent enc) (n : Text) :
    s.latest n = ((s.ids n).insertionSort (· ≥ ·)).head?.bind s.find := by
  obtain rfl | ⟨objs, lists, rfl⟩ := hs.cases
  · rfl
  · simp only [latest, latestNodeStatus, ids, getD_some]
    cases hl : lists.lookup n with
    | none => rfl
    | some is =>
      simp only [getD_some]
      cases is.insertionSort (· ≥ ·) with
      | nil => rfl
      | cons i tl =>
        simp only [List.head?_cons, bind_some]
        cases find ⟨some objs, some lists⟩ i <;> rfl

lemma latest_congr {s' : StatusStore α} (hs : s.Consistent enc) (hs' : s'.Consistent enc) {n : Text}
    (hi : s'.ids n = s.ids n) (hf : ∀ i ∈ s.ids n, s'.find i = s.find i) : s'.latest n = s.latest n := by
  rw [latest_eq hs', latest_eq hs, hi]
  cases hsr : (s.ids n).insertionSort (· ≥ ·) with
  | nil => rfl
  | cons i tl => exact hf i ((mem_insertionSort (· ≥ ·)).mp (hsr ▸ mem_cons_self))

lemma latest_record (hs : s.Consistent enc) (ha : enc a = none) (n : Text) :
    (s.record name a).latest n = if n = name then some a else s.latest n := by
  split
  · next h =>
    obtain ⟨tl, htl⟩ := insertionSort_ge_append fun j hj => lt_nextID (hs.listed name j hj)
    rw [latest_eq (hs.record name ha), ids_record, if_pos h, htl, List.head?_cons, bind_some, find_record,
      if_pos rfl]
  · next h =>
    refine latest_congr hs (hs.record name ha) ((ids_record n).trans (if_neg h)) fun i hi => ?_
    rw [find_record, if_neg fun h : i = s.nextID => hs.nextID_notMem n (h ▸ hi)]

lemma recordAll_spec (name : Text) {as : List α} (hs : s.Consistent enc)
    (has : ∀ a ∈ as, enc a = none) :
    ∃ s', recordAll enc name as s = (.ok (), s') ∧ s'.Consistent enc ∧
      (s.objs.isSome = true → s'.objs.isSome = true) ∧
      (∀ n, s'.statuses n = if n = name then s.statuses name ++ as else s.statuses n) ∧
      ∀ n, s'.latest n = if n = name then as.getLast?.or (s.latest name) else s.latest n := by
  induction as generalizing s with
  | nil =>
    refine ⟨s, rfl, hs, id, fun n => ?_, fun n => ?_⟩
    · split
      · next h => rw [h, append_nil]
      · rfl
    · split
      · next h => rw [h]; rfl
      · rfl
  | cons a as ih =>
    have ha := has a (.head _)
    obtain ⟨s', hr, hs', hm, hst, hl⟩ := ih (hs.record name ha) fun b hb => has b (.tail _ hb)
    refine ⟨s', ?_, hs', fun _ => hm rfl, fun n => ?_, fun n => ?_⟩
    · rw [recordAll, ha]
      exact hr
    · rw [hst, statuses_record hs, statuses_record hs, if_pos rfl, append_assoc]
      split <;> rfl
    · rw [hl, latest_record hs ha, latest_record hs ha, if_pos rfl]
      split
      · cases as <;> simp [List.getLast?_cons]
      · rfl

lemma deleteStatuses_spec (hs : s.Consistent enc) (hmd : s.objs.isSome = true) (name : Text) :
    ∃ s', s.deleteStatuses name = (.ok (), s') ∧ s'.Consistent enc ∧ s'.objs.isSome = true ∧
      (∀ n, s'.statuses n = if n = name then [] else s.statuses n) ∧
      ∀ n, s'.latest n = if n = name then none else s.latest n := by
  obtain rfl | ⟨objs, lists, rfl⟩ := hs.cases
  · cases hmd
  set s : StatusStore α := ⟨some objs, some lists⟩
  set s' : StatusStore α := ⟨some ((s.ids name).foldl (fun t i => t.erase i) objs), some (lists.erase name)⟩ with hs'
  have hf : ∀ i, s'.find i = if i ∈ s.ids name then none else s.find i := fun i => lookup_eraseKeys _ _ i
  have hid : ∀ n, s'.ids n = if n = name then [] else s.ids n := by
    intro n
    rw [hs', ids]
    split
    · next h => rw [h]; simp
    · next h => simp only [getD_some, lookup_erase_ne h]; rfl
  have hk : ∀ n, n ≠ name → ∀ i ∈ s.ids n, s'.find i = s.find i := by
    intro n hn i hi
    rw [hf, if_neg fun hmm => hn (hs.disjoint n name i hi hmm)]
  have hc : s'.Consistent enc := by
    refine ⟨rfl, fun n i hi => ?_, fun n => ?_, fun n m i hn hm => ?_, fun i a ha => ?_⟩
    · rw [hid] at hi
      split at hi
      · cases hi
      · next h =>
        rw [hk n h i hi]
        exact hs.listed n i hi
    · rw [hid]
      split
      · exact nodup_nil
      · exact hs.nodup n
    · rw [hid] at hn hm
      split at hn
      · cases hn
      · split at hm
        · cases hm
        · exact hs.disjoint n m i hn hm
    · rw [hf] at ha
      split at ha
      · cases ha
      · exact hs.encodable i a ha
  refine ⟨s', rfl, hc, rfl, fun n => ?_, fun n => ?_⟩
  · rw [statuses, hid]
    split
    · rfl
    · next h => exact filterMap_congr fun i hi => hk n h i hi
  · split
    · next h => rw [latest_eq hc, hid, if_pos h]; rfl
    · next h => exact latest_congr hs hc ((hid n).trans (if_neg h)) (hk n h)

lemma replaceNodeStatuses_spec (hs : s.Consistent enc) (hm : s.objs.isSome = true) (name : Text) {as : List α}
    (has : ∀ a ∈ as, enc a = none) :
    ∃ s', s.replaceNodeStatuses enc name as = (.ok (), s') ∧ s'.Consistent enc ∧
      s'.objs.isSome = true ∧ (∀ n, s'.statuses n = if n = name then as else s.statuses n) ∧
      ∀ n, s'.latest n = if n = name then as.getLast? else s.latest n := by
  obtain ⟨s₁, hd, hs₁, hm₁, hst₁, hl₁⟩ := deleteStatuses_spec hs hm name
  obtain ⟨s₂, hr, hs₂, hm₂, hst₂, hl₂⟩ := recordAll_spec name hs₁ has
  refine ⟨s₂, ?_, hs₂, hm₂ hm₁, fun n => ?_, fun n => ?_⟩
  · rw [replaceNodeStatuses, hd]
    exact hr
  · rw [hst₂, hst₁, if_pos rfl, nil_append, hst₁]
    split <;> rfl
  · rw [hl₂, hl₁, if_pos rfl, or_none, hl₁]
    split <;> rfl

lemma mapM_find {is : List ℕ} (h : ∀ i ∈ is, (s.find i).isSome = true) :
    (is.mapM fun i =>
      (match s.find i with
      | some a => .ok a
      | none => .error (.panic .typeAssertion) : Except StatusFault α)) = .ok (is.filterMap s.find) := by
  induction is with
  | nil => rfl
  | cons i is ih =>
    obtain ⟨a, ha⟩ := isSome_iff_exists.mp (h i (.head _))
    rw [mapM_cons, ha, ih fun j hj => h j (.tail _ hj), filterMap_cons_some ha]
    rfl

lemma allNodeStatuses_eq (hs : s.Consistent enc) (hm : s.objs.isSome = true) (name : Text) :
    s.allNodeStatuses name = .ok (s.statuses name) := by
  obtain rfl | ⟨objs, lists, rfl⟩ := hs.cases
  · cases hm
  · exact mapM_find (hs.listed name)

lemma Consistent.encodable_of_mem (hs : s.Consistent enc) {name : Text} (ha : a ∈ s.statuses name) : enc a = none := by
  obtain ⟨i, -, hi⟩ := mem_filterMap.mp ha
  exact hs.encodable i a hi

section

variable {time : α → ℤ} (sorting : KeySort time) (cutoff : ℤ)

lemma keptAfter_eq (l : List α) :
    keptAfter time cutoff (sorting.sort l) = (sorting.sort l).filter fun a => decide (cutoff < time a) := by
  have hs : (sorting.sort l).Pairwise fun a b =>
      decide (cutoff < time a) = true → decide (cutoff < time b) = true :=
    (sorting.sorted l).imp fun hab ha => by
      simp only [decide_eq_true_eq] at ha ⊢
      omega
  rw [keptAfter, (searchBy_splits hs).drop.1]

lemma keptAfter_perm (l : List α) :
    (keptAfter time cutoff (sorting.sort l)).Perm (l.filter fun a => decide (cutoff < time a)) := by
  rw [keptAfter_eq]
  exact (sorting.perm l).filter _

lemma cutoff_lt_of_first {l rest : List α} {first : α} (hs : sorting.sort l = first :: rest)
    (hf : cutoff < time first) : ∀ a ∈ l, cutoff < time a := by
  intro a ha
  have hm : a ∈ first :: rest := hs ▸ (sorting.perm l).mem_iff.mpr ha
  rcases mem_cons.mp hm with rfl | hr
  · exact hf
  · exact hf.trans_le ((pairwise_cons.mp (hs ▸ sorting.sorted l)).1 a hr)

/-- What purging a node does: the others stay, and its latest status is the last one kept, if any had to go. -/
structure Purges (name : Text) (cutoff : ℤ) (s s' : StatusStore α) : Prop where
  own : (s'.statuses name).Perm ((s.statuses name).filter fun a => decide (cutoff < time a))
  others : ∀ n, n ≠ name → s'.statuses n = s.statuses n ∧ s'.latest n = s.latest n
  latest : s'.latest name = if ∀ a ∈ s.statuses name, cutoff < time a then s.latest name else
    (keptAfter time cutoff (sorting.sort (s.statuses name))).getLast?

def removed (time : α → ℤ) (s : StatusStore α) (x : Text × ℤ) : ℕ :=
  (s.statuses x.1).countP fun a => decide (time a ≤ x.2)

lemma length_sub_kept (l : List α) : l.length - (keptAfter time cutoff (sorting.sort l)).length =
    l.countP fun a => decide (time a ≤ cutoff) := by
  have hk := (keptAfter_perm sorting cutoff l).length_eq
  have hs := length_eq_countP_add_countP (fun a => decide (cutoff < time a)) (l := l)
  have hn : (l.countP fun a => decide ¬ decide (cutoff < time a) = true) = l.countP fun a => decide (time a ≤ cutoff) :=
    countP_congr fun a _ => by simp
  rw [← countP_eq_length_filter] at hk
  omega

lemma purgeNode_spec (hs : s.Consistent enc) (hm : s.objs.isSome = true) (name : Text) :
    ∃ s', purgeNode enc sorting s name cutoff = (.ok (removed time s (name, cutoff)), s') ∧
      s'.Consistent enc ∧ s'.objs.isSome = true ∧ Purges sorting name cutoff s s' := by
  have hal := allNodeStatuses_eq hs hm name
  have hst (h : ∀ a ∈ s.statuses name, cutoff < time a) :
      removed time s (name, cutoff) = 0 ∧ Purges sorting name cutoff s s := by
    refine ⟨?_, ?_, fun _ _ => ⟨rfl, rfl⟩, (if_pos h).symm⟩
    · exact countP_eq_zero.mpr fun a ha => by simpa using h a ha
    · rw [filter_eq_self.mpr fun a ha => by simpa using h a ha]
  cases hsr : sorting.sort (s.statuses name) with
  | nil =>
    have hnl : s.statuses name = [] := List.Perm.eq_nil (hsr ▸ (sorting.perm (s.statuses name)).symm)
    obtain ⟨hz, hp⟩ := hst (by simp [hnl])
    exact ⟨s, by simp only [purgeNode, hal, hsr, hz], hs, hm, hp⟩
  | cons first rest =>
    by_cases hf : cutoff < time first
    · obtain ⟨hz, hp⟩ := hst (cutoff_lt_of_first sorting cutoff hsr hf)
      exact ⟨s, by simp only [purgeNode, hal, hsr, if_pos hf, hz], hs, hm, hp⟩
    · have hpr := keptAfter_perm sorting cutoff (s.statuses name)
      have hl := length_sub_kept sorting cutoff (s.statuses name)
      have ho : ¬ ∀ a ∈ s.statuses name, cutoff < time a := fun h =>
        hf (h first ((sorting.perm _).mem_iff.mp (hsr ▸ mem_cons_self)))
      have hk : ∀ a ∈ keptAfter time cutoff (sorting.sort (s.statuses name)), enc a = none := fun a ha =>
        hs.encodable_of_mem (mem_of_mem_filter (hpr.mem_iff.mp ha))
      obtain ⟨s', hr, hs', hm', hsa, hlt⟩ := replaceNodeStatuses_spec hs hm name hk
      refine ⟨s', ?_, hs', hm', ?_, fun n hn => ⟨(hsa n).trans (if_neg hn), (hlt n).trans (if_neg hn)⟩, ?_⟩
      · rw [hsr] at hr hl
        simp only [purgeNode, hal, hsr, if_neg hf, hr, hl, removed]
      · rw [hsa, if_pos rfl]
        exact hpr
      · rw [hlt, if_pos rfl, if_neg ho]

structure PurgesAll (nodes : List (Text × ℤ)) (s s' : StatusStore α) (k : ℕ) : Prop where
  kept : ∀ n, (s'.statuses n).Perm ((s.statuses n).filter fun a => decide (∀ x ∈ nodes, x.1 = n → x.2 < time a))
  others : ∀ n, n ∉ nodes.map Prod.fst → s'.latest n = s.latest n
  count : (nodes.map Prod.fst).Nodup → k = (nodes.map (removed time s)).sum
  latest : (nodes.map Prod.fst).Nodup → ∀ x ∈ nodes, s'.latest x.1 =
    if ∀ a ∈ s.statuses x.1, x.2 < time a then s.latest x.1 else
      (keptAfter time x.2 (sorting.sort (s.statuses x.1))).getLast?

lemma PurgesAll.cons {nodes : List (Text × ℤ)} {s₁ s₂ : StatusStore α} {k : ℕ} (h₁ : Purges sorting name cutoff s s₁)
    (h₂ : PurgesAll sorting nodes s₁ s₂ k) :
    PurgesAll sorting ((name, cutoff) :: nodes) s s₂ (removed time s (name, cutoff) + k) := by
  have hne (hnd : (((name, cutoff) :: nodes).map Prod.fst).Nodup) (x : Text × ℤ) (hx : x ∈ nodes) : x.1 ≠ name :=
    fun h => (nodup_cons.mp hnd).1 (mem_map.mpr ⟨x, hx, h⟩)
  refine ⟨fun n => (h₂.kept n).trans ?_, fun n hn => ?_, fun hnd => ?_, fun hnd x hx => ?_⟩
  · by_cases hn : n = name
    · subst hn
      refine (h₁.own.filter _).trans ?_
      rw [List.filter_filter]
      refine List.Perm.of_eq (List.filter_congr fun a _ => ?_)
      rw [← Bool.decide_and, decide_eq_decide, List.forall_mem_cons, and_comm]
      simp
    · rw [(h₁.others n hn).1]
      refine List.Perm.of_eq (filter_congr fun a _ => ?_)
      rw [decide_eq_decide, forall_mem_cons]
      simp [Ne.symm hn]
  · rw [map_cons, mem_cons, not_or] at hn
    exact (h₂.others n hn.2).trans (h₁.others n hn.1).2
  · rw [h₂.count hnd.tail, map_cons, sum_cons]
    exact congrArg _ (congrArg _ (map_congr_left fun x hx => by
      rw [removed, (h₁.others x.1 (hne hnd x hx)).1, removed]))
  · rcases mem_cons.mp hx with rfl | hx
    · exact (h₂.others name (nodup_cons.mp hnd).1).trans h₁.latest
    · obtain ⟨hs, hl⟩ := h₁.others x.1 (hne hnd x hx)
      rw [h₂.latest hnd.tail x hx, hs, hl]

lemma deleteByAge_spec (nodes : List (Text × ℤ)) (hs : s.Consistent enc) (hm : s.objs.isSome = true) :
    ∃ k s', deleteByAge enc sorting nodes s = (.ok k, s') ∧ s'.Consistent enc ∧ PurgesAll sorting nodes s s' k := by
  induction nodes generalizing s with
  | nil =>
    exact ⟨0, s, rfl, hs, fun _ => by simp, fun _ _ => rfl, fun _ => rfl, fun _ _ h => absurd h not_mem_nil⟩
  | cons x nodes ih =>
    obtain ⟨name, cutoff⟩ := x
    obtain ⟨s₁, hr₁, hs₁, hm₁, hp⟩ := purgeNode_spec sorting cutoff hs hm name
    obtain ⟨k, s₂, hr₂, hs₂, ha⟩ := ih hs₁ hm₁
    exact ⟨_, s₂, by simp only [deleteByAge, hr₁, hr₂], hs₂, ha.cons sorting cutoff hp⟩

end

end StatusStore

end Goiardi.Nodes
