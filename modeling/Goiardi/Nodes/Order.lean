import Goiardi.Nodes.Statuses

/-! The order of a node's statuses. Reading the latest one sorts the stored list of the node in place, and a purge puts
the statuses it keeps back under new numbers, by their times. -/

namespace Goiardi.Nodes

open List Option

inductive StatusCall (α : Type)
  | set (name : Text) (a : α)
  | replace (name : Text) (as : List α)
  | delete (name : Text)
  | latest (name : Text)
deriving DecidableEq

def StatusCall.isLatest {α : Type} : StatusCall α → Bool
  | latest _ => true
  | _ => false

def StatusCall.node {α : Type} : StatusCall α → Text
  | set name _ | replace name _ | delete name | latest name => name

/-- What was recorded for each node, in the order in which it was. -/
structure Journal (α : Type) where
  made : Bool
  of : Text → List α

namespace StatusStore

variable {α : Type} (enc : α → Option Text)

def call (s : StatusStore α) : StatusCall α → StatusStore α
  | .set name a => (s.setNodeStatus enc name a).2
  | .replace name as => (s.replaceNodeStatuses enc name as).2
  | .delete name => (s.deleteStatuses name).2
  | .latest name => (s.latestNodeStatus name).2

def run (calls : List (StatusCall α)) : StatusStore α := calls.foldl (call enc) ⟨none, none⟩

def recordable (as : List α) : List α := as.takeWhile fun a => (enc a).isNone

def note (j : Journal α) : StatusCall α → Journal α
  | .set name a =>
    if (enc a).isNone then ⟨true, fun n => if n = name then j.of name ++ [a] else j.of n⟩ else j
  | .replace name as => if j.made then ⟨true, fun n => if n = name then recordable enc as else j.of n⟩ else j
  | .delete name => if j.made then ⟨true, fun n => if n = name then [] else j.of n⟩ else j
  | .latest _ => j

def journal (calls : List (StatusCall α)) : Journal α := calls.foldl (note enc) ⟨false, fun _ => []⟩

structure Records (s : StatusStore α) (j : Journal α) : Prop where
  consistent : s.Consistent enc
  made : s.objs.isSome = j.made
  statuses : ∀ n, s.statuses n = j.of n

def AllListed (s : StatusStore α) : Prop := ∀ i, (s.find i).isSome = true → ∃ n, i ∈ s.ids n

structure Settled (s : StatusStore α) (j : Journal α) : Prop extends Records enc s j where
  listed : s.AllListed
  latest : ∀ n, s.latest n = (j.of n).getLast?

/-- The latest status is only read of a node that has at most one. -/
def Quiet : Journal α → List (StatusCall α) → Prop
  | _, [] => True
  | j, c :: cs => (∀ name, c = .latest name → (j.of name).length ≤ 1) ∧ Quiet (note enc j c) cs

section

variable {enc} {s : StatusStore α} {j : Journal α}

lemma recordAll_recordable (name : Text) (as : List α) (s : StatusStore α) :
    (recordAll enc name as s).2 = (recordAll enc name (recordable enc as) s).2 := by
  induction as generalizing s with
  | nil => rfl
  | cons a as ih =>
    cases ha : enc a with
    | none =>
      rw [recordable, takeWhile_cons_of_pos (by rw [ha]; rfl)]
      simp only [recordAll, ha]
      exact ih _
    | some e =>
      rw [recordable, takeWhile_cons_of_neg (by rw [ha]; simp)]
      simp only [recordAll, ha]

lemma encodable_of_recordable (as : List α) : ∀ a ∈ recordable enc as, enc a = none := fun a ha => by
  simpa using mem_takeWhile_imp ha

lemma Records.set (h : Records enc s j) (name : Text) (a : α) :
    Records enc (call enc s (.set name a)) (note enc j (.set name a)) := by
  cases ha : enc a with
  | some e =>
    simp only [call, setNodeStatus, note, ha]
    exact h
  | none =>
    simp only [call, setNodeStatus, note, ha, isNone_none, if_true]
    refine ⟨h.consistent.record name ha, rfl, fun n => ?_⟩
    rw [statuses_record h.consistent]
    simp only [h.statuses]

lemma deleteStatuses_unmade (h : s.Consistent enc) (hm : s.objs.isSome = false) (name : Text) :
    s.deleteStatuses name = (.error noStatuses, s) := by
  obtain rfl | ⟨objs, lists, rfl⟩ := h.cases
  · rfl
  · cases hm

lemma Records.replace (h : Records enc s j) (name : Text) (as : List α) :
    Records enc (call enc s (.replace name as)) (note enc j (.replace name as)) := by
  cases hm : j.made with
  | false =>
    simp only [call, note, hm, replaceNodeStatuses, deleteStatuses_unmade h.consistent (h.made.trans hm) name]
    exact h
  | true =>
    obtain ⟨s₁, hd, hs₁, hm₁, hst₁, -⟩ := deleteStatuses_spec h.consistent (h.made.trans hm) name
    obtain ⟨s₂, hr, hs₂, hm₂, hst₂, -⟩ := recordAll_spec name hs₁ (encodable_of_recordable as)
    simp only [call, note, hm, if_true, replaceNodeStatuses, hd]
    rw [recordAll_recordable, hr]
    refine ⟨hs₂, hm₂ hm₁, fun n => ?_⟩
    simp only [hst₂, hst₁, h.statuses, if_true, nil_append]
    split <;> rfl

lemma Records.delete (h : Records enc s j) (name : Text) :
    Records enc (call enc s (.delete name)) (note enc j (.delete name)) := by
  cases hm : j.made with
  | false =>
    simp only [call, note, hm, deleteStatuses_unmade h.consistent (h.made.trans hm) name]
    exact h
  | true =>
    obtain ⟨s', hd, hs', hm', hs, -⟩ := deleteStatuses_spec h.consistent (h.made.trans hm) name
    simp only [call, note, hm, if_true, hd]
    exact ⟨hs', hm', fun n => by simp only [hs, h.statuses]⟩

-- a list of at most one number is sorted already
lemma latestNodeStatus_quiet (hs : s.Consistent enc) {name : Text} (ho : (s.statuses name).length ≤ 1) :
    (s.latestNodeStatus name).2.objs = s.objs ∧
      (s.latestNodeStatus name).2.lists.isSome = s.lists.isSome ∧ ∀ n, (s.latestNodeStatus name).2.ids n = s.ids n := by
  rw [StatusStore.statuses, length_filterMap_eq_countP, countP_eq_length.mpr (hs.listed name)] at ho
  obtain rfl | ⟨objs, lists, rfl⟩ := hs.cases
  · exact ⟨rfl, rfl, fun _ => rfl⟩
  · cases hl : lists.lookup name with
    | none => simp only [latestNodeStatus, hl, implies_true, and_self]
    | some is =>
      have hsr : is.insertionSort (· ≥ ·) = is := by
        simp only [ids, getD_some, hl] at ho
        rcases is with _ | ⟨i, _ | ⟨k, tl⟩⟩
        · rfl
        · rfl
        · simp at ho
      have hi (n : Text) : StatusStore.ids ⟨some objs, some (lists.insert name is)⟩ n =
          StatusStore.ids ⟨some objs, some lists⟩ n := by
        simp only [ids, getD_some]
        by_cases hn : n = name
        · rw [hn, AList.lookup_insert, hl]
        · rw [AList.lookup_insert_ne hn]
      simp only [latestNodeStatus, hl, hsr]
      cases is with
      | nil => exact ⟨rfl, rfl, hi⟩
      | cons i tl =>
        dsimp only
        split <;> exact ⟨rfl, rfl, hi⟩

lemma Records.latest (h : Records enc s j) {name : Text} (hon : (j.of name).length ≤ 1) :
    Records enc (call enc s (.latest name)) (note enc j (.latest name)) := by
  obtain ⟨ho, hl, hi⟩ := latestNodeStatus_quiet h.consistent (h.statuses name ▸ hon)
  have hf : (s.latestNodeStatus name).2.find = s.find := by
    funext i
    rw [find, ho, find]
  refine ⟨⟨?_, ?_, ?_, ?_, ?_⟩, (congrArg _ ho).trans h.made, fun n => ?_⟩
  · rw [call, ho, hl]
    exact h.consistent.together
  · simpa only [call, hi, hf] using h.consistent.listed
  · simpa only [call, hi] using h.consistent.nodup
  · simpa only [call, hi] using h.consistent.disjoint
  · simpa only [call, hf] using h.consistent.encodable
  · rw [call, StatusStore.statuses, hi, hf]
    exact h.statuses n

lemma Records.call (h : Records enc s j) {c : StatusCall α} (hq : ∀ name, c = .latest name → (j.of name).length ≤ 1) :
    Records enc (call enc s c) (note enc j c) := by
  cases c with
  | set name a => exact h.set name a
  | replace name as => exact h.replace name as
  | delete name => exact h.delete name
  | latest name => exact h.latest (hq name rfl)

lemma Records.calls (h : Records enc s j) {cs : List (StatusCall α)} (hq : Quiet enc j cs) :
    Records enc (cs.foldl (StatusStore.call enc) s) (cs.foldl (note enc) j) := by
  induction cs generalizing s j with
  | nil => exact h
  | cons c cs ih => exact ih (h.call hq.1) hq.2

lemma records_empty : Records enc ⟨none, none⟩ ⟨false, fun _ => []⟩ where
  consistent := ⟨rfl, fun _ _ h => absurd h not_mem_nil, fun _ => nodup_nil,
    fun _ _ _ h => absurd h not_mem_nil, fun _ _ h => nomatch h⟩
  made := rfl
  statuses _ := rfl

lemma Records.all (h : Records enc s j) (n : Text) :
    s.allNodeStatuses n = if j.made then .ok (j.of n) else .error noStatuses := by
  cases hm : j.made with
  | true => rw [allNodeStatuses_eq h.consistent (h.made.trans hm), h.statuses, if_pos rfl]
  | false =>
    obtain rfl | ⟨objs, lists, rfl⟩ := h.consistent.cases
    · rfl
    · exact absurd (h.made.trans hm) (by simp)

lemma quiet_of_writes (j : Journal α) {cs : List (StatusCall α)} (h : ∀ c ∈ cs, c.isLatest = false) :
    Quiet enc j cs := by
  induction cs generalizing j with
  | nil => trivial
  | cons c cs ih =>
    refine ⟨?_, ih _ fun c hc => h c (mem_cons_of_mem _ hc)⟩
    rintro name rfl
    cases h _ mem_cons_self

lemma foldl_note_filter (j : Journal α) (cs : List (StatusCall α)) :
    (cs.filter fun c => !c.isLatest).foldl (note enc) j = cs.foldl (note enc) j := by
  induction cs generalizing j with
  | nil => rfl
  | cons c cs ih => cases c <;> exact ih _

lemma AllListed.record (h : s.AllListed) (name : Text) (a : α) : (s.record name a).AllListed := by
  intro i hi
  by_cases hnx : i = s.nextID
  · exact ⟨name, by simp [ids_record, hnx]⟩
  · rw [find_record, if_neg hnx] at hi
    obtain ⟨n, hn⟩ := h i hi
    refine ⟨n, ?_⟩
    rw [ids_record]
    split
    · next heq => exact mem_append_left _ (heq ▸ hn)
    · exact hn

lemma AllListed.recordAll (h : s.AllListed) (name : Text) (as : List α) : (recordAll enc name as s).2.AllListed := by
  induction as generalizing s with
  | nil => exact h
  | cons a as ih =>
    rw [StatusStore.recordAll]
    cases enc a with
    | some e => exact h
    | none => exact ih (h.record name a)

lemma AllListed.delete (h : s.AllListed) (name : Text) : (s.deleteStatuses name).2.AllListed := by
  rcases s with ⟨_ | objs, _ | lists⟩
  iterate 3 exact h
  intro i hi
  simp only [deleteStatuses, find, getD_some, lookup_eraseKeys] at hi
  split at hi
  · cases hi
  · next ho =>
    obtain ⟨n, hn⟩ := h i hi
    have hne : n ≠ name := fun heq => ho (heq ▸ hn)
    exact ⟨n, by simpa [ids, deleteStatuses, AList.lookup_erase_ne hne] using hn⟩

lemma Settled.call (h : Settled enc s j) {c : StatusCall α} (hc : c.isLatest = false) :
    Settled enc (call enc s c) (note enc j c) := by
  have hr := h.toRecords.call (c := c) fun name heq => by subst heq; cases hc
  have hs := h.consistent
  refine ⟨hr, ?_, fun n => ?_⟩
  · cases c with
    | set name a =>
      rw [StatusStore.call, setNodeStatus]
      cases enc a with
      | some e => exact h.listed
      | none => exact h.listed.record name a
    | replace name as =>
      have hd := h.listed.delete name
      rw [StatusStore.call, replaceNodeStatuses]
      split
      · next heq => exact heq ▸ hd
      · next heq =>
        rw [heq] at hd
        exact hd.recordAll name as
    | delete name => exact h.listed.delete name
    | latest name => cases hc
  · cases c with
    | set name a =>
      cases ha : enc a with
      | some e => simpa [StatusStore.call, setNodeStatus, note, ha] using h.latest n
      | none =>
        simp only [StatusStore.call, setNodeStatus, note, ha, latest_record hs ha, h.latest]
        grind
    | replace name as =>
      cases hm : j.made with
      | false => simpa [StatusStore.call, note, hm, replaceNodeStatuses,
          deleteStatuses_unmade hs (h.made.trans hm) name] using h.latest n
      | true =>
        obtain ⟨s₁, hdl, hs₁, -, -, hl₁⟩ := deleteStatuses_spec hs (h.made.trans hm) name
        obtain ⟨s₂, hal, -, -, -, hl₂⟩ := recordAll_spec name hs₁ (encodable_of_recordable as)
        simp only [StatusStore.call, note, hm, replaceNodeStatuses, hdl, recordAll_recordable name as, hal,
          hl₂, hl₁, h.latest]
        grind
    | delete name =>
      cases hm : j.made with
      | false => simpa [StatusStore.call, note, hm, deleteStatuses_unmade hs (h.made.trans hm) name]
          using h.latest n
      | true =>
        obtain ⟨s', hdl, -, -, -, hl⟩ := deleteStatuses_spec hs (h.made.trans hm) name
        simp only [StatusStore.call, note, hm, hdl, hl, h.latest]
        grind
    | latest name => cases hc

lemma settled_run {calls : List (StatusCall α)} (h : ∀ c ∈ calls, c.isLatest = false) :
    Settled enc (run enc calls) (journal enc calls) := by
  induction calls using reverseRecOn with
  | nil => exact ⟨records_empty, fun _ hi => absurd hi (by simp [run, find]), fun _ => rfl⟩
  | append_singleton calls c ih =>
    rw [run, journal, foldl_concat, foldl_concat]
    exact (ih fun c hc => h c (mem_append_left _ hc)).call (h c (by simp))

lemma note_other {c : StatusCall α} {n : Text} (hn : n ≠ c.node) : (note enc j c).of n = j.of n := by
  cases c <;> simp only [StatusCall.node] at hn <;> simp only [note] <;> split <;> simp only [if_neg hn]

theorem run_consistent (enc : α → Option Text) (calls : List (StatusCall α))
    (hw : ∀ c ∈ calls, c.isLatest = false) : (∀ n, ((run enc calls).ids n).Nodup) ∧
      (∀ n m i, i ∈ (run enc calls).ids n → i ∈ (run enc calls).ids m → n = m) ∧
      (∀ i, ((run enc calls).find i).isSome = true ↔ ∃ n, i ∈ (run enc calls).ids n) ∧
      (∀ c n, c.isLatest = false → n ≠ c.node → (call enc (run enc calls) c).statuses n = (run enc calls).statuses n) ∧
      ∀ n, (run enc calls).latest n = ((journal enc calls).of n).getLast? := by
  have h : Settled enc _ _ := settled_run hw
  refine ⟨h.consistent.nodup, h.consistent.disjoint, fun i => ⟨h.listed i, fun ⟨n, hn⟩ => h.consistent.listed n i hn⟩,
    fun c n hc hn => ?_, h.latest⟩
  rw [(h.call hc).statuses, note_other hn, h.statuses]

theorem allNodeStatuses_run (enc : α → Option Text) (calls : List (StatusCall α))
    (hquiet : Quiet enc ⟨false, fun _ => []⟩ calls) (n : Text) :
    (run enc calls).allNodeStatuses n =
        (if (journal enc calls).made then .ok ((journal enc calls).of n) else .error noStatuses) ∧
      (run enc calls).allNodeStatuses n =
        (run enc (calls.filter fun c => !c.isLatest)).allNodeStatuses n := by
  have hr := (records_empty.calls hquiet).all n
  have hw : Quiet enc ⟨false, fun _ => []⟩ (calls.filter fun c => !c.isLatest) :=
    quiet_of_writes _ fun c hc => by simpa using of_mem_filter hc
  have hf := (records_empty.calls hw).all n
  rw [foldl_note_filter] at hf
  exact ⟨hr, hr.trans hf.symm⟩

end

theorem run_consistent_failing :
    (run (fun a : ℕ => if a = 0 then some "zero".toList else none)
      [.set "n" 1, .set "m" 2, .replace "n" [3, 0, 4]]).latest "n" = some 3 :=
  ((run_consistent _ [.set "n" 1, .set "m" 2, .replace "n" [3, 0, 4]]
    (by simp [StatusCall.isLatest])).2.2.2.2 "n").trans (by decide +kernel)

theorem allNodeStatuses_run_two :
    (run (fun _ : ℕ => none) [.set "n" 1, .latest "n", .set "n" 2]).allNodeStatuses "n" = .ok [1, 2] :=
  (allNodeStatuses_run (fun _ => none) [.set "n" 1, .latest "n", .set "n" 2]
    ⟨by simp, fun _ h => by cases h; decide, by simp, trivial⟩ "n").1

theorem latestNodeStatus_reorders :
    (run (fun _ : ℕ => none) [.set "n" 1, .set "n" 2, .latest "n"]).allNodeStatuses "n" = .ok [2, 1] ∧
      (run (fun _ : ℕ => none) [.set "n" 1, .set "n" 2]).allNodeStatuses "n" = .ok [1, 2] := by
  decide +kernel

section

variable {time : α → ℤ} {s : StatusStore α} {nodes : List (Text × ℤ)} {enc}

structure Purged (time : α → ℤ) (nodes : List (Text × ℤ)) (s s' : StatusStore α) (k : ℕ) : Prop where
  kept : ∀ n, (s'.statuses n).Perm ((s.statuses n).filter fun a => decide (∀ x ∈ nodes, x.1 = n → x.2 < time a))
  count : k = (nodes.map (removed time s)).sum
  latest : ∀ x ∈ nodes, ∀ a, s.latest x.1 = some a → x.2 < time a → s'.latest x.1 = some a

def LatestIsNewest (time : α → ℤ) (s : StatusStore α) (x : Text × ℤ) : Prop :=
  (∃ b ∈ s.statuses x.1, time b ≤ x.2) → ∀ a, s.latest x.1 = some a → x.2 < time a →
    ∀ b ∈ s.statuses x.1, time a ≤ time b → b = a

lemma mem_statuses_of_latest (hs : s.Consistent enc) {n : Text} {a : α} (ha : s.latest n = some a) :
    a ∈ s.statuses n := by
  rw [latest_eq hs] at ha
  obtain ⟨i, hi, hf⟩ := bind_eq_some_iff.mp ha
  exact mem_filterMap.mpr ⟨i, (mem_insertionSort (· ≥ ·)).mp (mem_of_head? hi), hf⟩

lemma getLast?_kept {l : List α} {a : α} {cutoff : ℤ} (sorting : KeySort time) (ha : a ∈ l) (hn : cutoff < time a)
    (hm : ∀ b ∈ l, time a ≤ time b → b = a) : (keptAfter time cutoff (sorting.sort l)).getLast? = some a := by
  have hin : a ∈ keptAfter time cutoff (sorting.sort l) :=
    (keptAfter_perm sorting cutoff l).mem_iff.mpr (mem_filter.mpr ⟨ha, decide_eq_true hn⟩)
  obtain ⟨init, b, hsp⟩ := (eq_nil_or_concat' _).resolve_left (ne_nil_of_mem hin)
  have hb : b ∈ l := mem_of_mem_filter ((keptAfter_perm sorting cutoff l).mem_iff.mp (by simp [hsp]))
  have hs : (keptAfter time cutoff (sorting.sort l)).Pairwise fun a b => time a ≤ time b :=
    (sorting.sorted l).sublist (drop_sublist _ _)
  rw [hsp] at hin hs ⊢
  rw [List.getLast?_concat]
  have hle : time a ≤ time b := by
    rcases mem_append.mp hin with hi | hl
    · exact (pairwise_append.mp hs).2.2 a hi b mem_cons_self
    · rw [mem_singleton.mp hl]
  rw [hm b hb hle]

open Classical in
noncomputable def keyBefore (time : α → ℤ) (a b : α) : ℤ ×ₗ ℕ := toLex (time b, if b = a then 0 else 1)

-- among statuses of one time, this sort puts `a` first
noncomputable def sortBefore (time : α → ℤ) (a : α) : KeySort time where
  sort := (KeySort.insertion (keyBefore time a)).sort
  perm := (KeySort.insertion (keyBefore time a)).perm
  sorted l := ((KeySort.insertion (keyBefore time a)).sorted l).imp fun h => Prod.Lex.monotone_fst _ _ h

lemma eq_of_getLast?_sortBefore {l : List α} {a b : α} {cutoff : ℤ} (hn : cutoff < time a) (hb : b ∈ l)
    (hle : time a ≤ time b) (hls : (keptAfter time cutoff ((sortBefore time a).sort l)).getLast? = some a) : b = a := by
  obtain ⟨init, hsp⟩ := List.getLast?_eq_some_iff.mp hls
  have hin : b ∈ keptAfter time cutoff ((sortBefore time a).sort l) :=
    (keptAfter_perm _ cutoff l).mem_iff.mpr (mem_filter.mpr ⟨hb, decide_eq_true (by omega)⟩)
  have hs := ((KeySort.insertion (keyBefore time a)).sorted l).sublist
    (drop_sublist (searchBy (fun a => decide (cutoff < time a)) ((sortBefore time a).sort l)) _)
  change (keptAfter time cutoff ((sortBefore time a).sort l)).Pairwise _ at hs
  rw [hsp] at hin hs
  rcases mem_append.mp hin with hi | he
  · have hl := (pairwise_append.mp hs).2.2 b hi a mem_cons_self
    rw [keyBefore, keyBefore, Prod.Lex.toLex_le_toLex, if_pos rfl] at hl
    by_contra hne
    rw [if_neg hne] at hl
    omega
  · exact mem_singleton.mp he

lemma PurgesAll.purged {sorting : KeySort time} {s' : StatusStore α} {k : ℕ} (h : PurgesAll sorting nodes s s' k)
    (hs : s.Consistent enc) (hn : (nodes.map Prod.fst).Nodup)
    (hl : ∀ x ∈ nodes, LatestIsNewest time s x) : Purged time nodes s s' k := by
  refine ⟨h.kept, h.count hn, fun x hx a ha hnw => ?_⟩
  rw [h.latest hn x hx]
  split
  · exact ha
  · next ho =>
    refine getLast?_kept sorting (mem_statuses_of_latest hs ha) hnw (hl x hx ?_ a ha hnw)
    push Not at ho
    exact ho

theorem deleteByAge_purges_iff (time : α → ℤ) (hs : s.Consistent enc) (hnodes : (nodes.map Prod.fst).Nodup) :
    (∀ (sorting : KeySort time) (k : ℕ) (s' : StatusStore α),
        deleteByAge enc sorting nodes s = (.ok k, s') → Purged time nodes s s' k) ↔
      ∀ x ∈ nodes, LatestIsNewest time s x := by
  cases hm : s.objs.isSome with
  | false =>
    obtain rfl | ⟨objs, lists, rfl⟩ := hs.cases
    · refine ⟨fun _ x _ ⟨b, hb, _⟩ => absurd hb not_mem_nil, fun _ sorting k s' hr => ?_⟩
      cases nodes with
      | nil =>
        obtain ⟨hk, rfl⟩ := Prod.mk.inj hr
        exact ⟨fun _ => .refl _, (Except.ok.inj hk).symm, fun _ h => absurd h not_mem_nil⟩
      | cons x nodes => cases (Prod.mk.inj hr).1
    · cases hm
  | true =>
    refine ⟨fun h x hx ⟨b₀, hb₀, ho⟩ a ha hn b hb hle => ?_, fun h sorting k s' hr => ?_⟩
    · obtain ⟨k, s', hr, -, hal⟩ := deleteByAge_spec (sortBefore time a) nodes hs hm
      have hl := (h _ k s' hr).latest x hx a ha hn
      rw [hal.latest hnodes x hx, if_neg fun hnn => absurd (hnn b₀ hb₀) (by omega)] at hl
      exact eq_of_getLast?_sortBefore hn hb hle hl
    · obtain ⟨k₀, s₀, hr₀, -, hal⟩ := deleteByAge_spec sorting nodes hs hm
      obtain ⟨hk, rfl⟩ := Prod.mk.inj (hr₀.symm.trans hr)
      cases Except.ok.inj hk
      exact hal.purged hs hnodes h

end

-- the statuses are their own times
theorem deleteByAge_purges_two : Purged id [("n", 1)] (run (fun _ => none) [.set "n" 0, .set "n" 2])
      (deleteByAge (fun _ => none) (KeySort.insertion (id : ℤ → ℤ)) [("n", 1)]
        (run (fun _ => none) [.set "n" 0, .set "n" 2])).2 1 := by
  have hc : (deleteByAge (fun _ => none) (KeySort.insertion (id : ℤ → ℤ)) [("n", 1)]
      (run (fun _ => none) [.set "n" 0, .set "n" 2])).1 = .ok 1 := by decide +kernel
  refine (deleteByAge_purges_iff id (records_empty.calls (quiet_of_writes _ (by simp [StatusCall.isLatest]))).consistent
    (by simp)).mpr (fun x hx _ a ha _ b hb hle => ?_) (KeySort.insertion id) 1 _ (Prod.ext hc rfl)
  cases mem_singleton.mp hx
  have hl : (run (fun _ : ℤ => none) [.set "n" 0, .set "n" 2]).latest "n" = some 2 := by decide +kernel
  have hs : (run (fun _ : ℤ => none) [.set "n" 0, .set "n" 2]).statuses "n" = [0, 2] := by decide +kernel
  cases hl.symm.trans ha
  have hb := hs ▸ hb
  simp only [mem_cons, not_mem_nil, or_false, id_eq] at hb hle
  omega

theorem deleteByAge_changes_latest :
    (run (fun _ : ℤ => none) [.set "n" 0, .set "n" 3, .set "n" 2]).latest "n" = some 2 ∧
      (deleteByAge (fun _ => none) (KeySort.insertion (id : ℤ → ℤ)) [("n", 1)]
        (run (fun _ => none) [.set "n" 0, .set "n" 3, .set "n" 2])).2.latest "n" = some 3 := by
  decide +kernel

end StatusStore

end Goiardi.Nodes
