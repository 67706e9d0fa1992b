import Goiardi.Nodes.Statuses
import Goiardi.Objects.Records

/-! Purging reports and node statuses by age, in memory and by SQL. Times are counted from the zero time, which is the
end of a run that has not ended; it is stored like any other time. -/

namespace Goiardi.Retention

open Validation List AList
open Objects (Node)
open Nodes (StatusStore)

structure Report where
  runID : Text
  startTime : ℤ
  endTime : ℤ
  totalResCount : ℤ
  status : Text
  runList : Text
  resources : List Json
  data : JsonMap
  nodeName : Text
  organizationID : ℤ

structure NodeStatus where
  node : Node
  status : Text
  updatedAt : ℤ

structure Reports where
  table : AList fun _ : Text => Report
  keyed : ∀ k r, table.lookup k = some r → r.runID = k

namespace Reports

def all (t : Reports) : List Report := t.table.entries.map fun e => e.2

def delete (t : Reports) (r : Report) : Reports where
  table := t.table.erase r.runID
  keyed k r' h := by
    by_cases hk : k = r.runID
    · subst hk
      rw [lookup_erase] at h
      cases h
    · rw [lookup_erase_ne hk] at h
      exact t.keyed k r' h

def deleteByAge (sorting : KeySort Report.endTime) (cutoff : ℤ) (t : Reports) : ℕ × Reports :=
  match sorting.sort t.all with
  | [] => (0, t)
  | first :: rest =>
    if cutoff < first.endTime then (0, t)
    else
      let i := searchBy (fun r : Report => decide (cutoff < r.endTime)) (first :: rest)
      (i, ((first :: rest).take i).foldl delete t)

end Reports

def cutoffAt (now : ℤ) (dur : Int64) : ℤ := now + (-dur).toInt

section

variable {α : Type}

/-- `DELETE … WHERE time >= cutoff`: the rows that are left. -/
def deleteByAgeSQL (time : α → ℤ) (cutoff : ℤ) (rows : List α) : List α :=
  rows.filter fun a => !decide (cutoff ≤ time a)

end

section

variable (sorting : KeySort Report.endTime) (cutoff : ℤ)

lemma Reports.mem_all {t : Reports} {r : Report} : r ∈ t.all ↔ t.table.lookup r.runID = some r := by
  rw [Reports.all, mem_map]
  constructor
  · rintro ⟨e, he, rfl⟩
    have hl : t.table.lookup e.1 = some e.2 := mem_lookup_iff.mpr he
    rw [t.keyed e.1 e.2 hl]
    exact hl
  · intro h
    exact ⟨⟨r.runID, r⟩, mem_lookup_iff.mp h, rfl⟩

lemma Reports.table_deleteAll (rs : List Report) (t : Reports) :
    (rs.foldl delete t).table = (rs.map Report.runID).foldl (fun t k => t.erase k) t.table := by
  induction rs generalizing t with
  | nil => rfl
  | cons r rs ih => exact ih (t.delete r)

lemma Reports.table_deleteByAge (t : Reports) : (t.deleteByAge sorting cutoff).2.table = (purgeSorted sorting Report.runID
    (fun r => cutoff < r.endTime) (fun r => !decide (cutoff < r.endTime)) t.table).2 := by
  have ha : (Table.list t.table).map Prod.snd = t.all := List.map_map
  simp only [deleteByAge, purgeSorted, ha, Bool.not_not, decide_eq_true_eq]
  cases sorting.sort t.all with
  | nil => rfl
  | cons first rest =>
    dsimp only
    split
    · rfl
    · exact table_deleteAll _ t

lemma Reports.mem_deleteByAge {t : Reports} {r : Report} :
    r ∈ (t.deleteByAge sorting cutoff).2.all ↔ r ∈ t.all ∧ cutoff < r.endTime := by
  rw [mem_all, mem_all, table_deleteByAge, (purgeSorted_cutoff sorting t.keyed).2, Option.filter_eq_some_iff,
    decide_eq_true_eq]

end

structure Fleet (enc : NodeStatus → Option Text) where
  nodes : List Text
  store : StatusStore NodeStatus
  consistent : store.Consistent enc
  owned : ∀ name, name ∉ nodes → store.statuses name = []

section

variable {enc : NodeStatus → Option Text}

def Fleet.purged (sorting : KeySort NodeStatus.updatedAt) (cutoff : ℤ) (f : Fleet enc) (name : Text) :
    List NodeStatus :=
  (StatusStore.deleteByAge enc sorting (f.nodes.map fun n => (n, cutoff)) f.store).2.statuses name

lemma Fleet.purged_perm (sorting : KeySort NodeStatus.updatedAt) (cutoff : ℤ) (f : Fleet enc) (name : Text) :
    (f.purged sorting cutoff name).Perm ((f.store.statuses name).filter fun st => decide (cutoff < st.updatedAt)) := by
  rw [purged]
  cases hm : f.store.objs.isSome with
  | false =>
    -- the first node ends the purge, and there was nothing to remove
    obtain ⟨nodes, store, hs, _⟩ := f
    obtain rfl | ⟨objs, lists, rfl⟩ := hs.cases
    · cases nodes <;> rfl
    · cases hm
  | true =>
    obtain ⟨k, s', hr, -, ha⟩ := StatusStore.deleteByAge_spec sorting _ f.consistent hm
    rw [hr]
    refine (ha.kept name).trans ?_
    by_cases hn : name ∈ f.nodes
    · refine List.Perm.of_eq (filter_congr fun st _ => ?_)
      rw [decide_eq_decide, forall_mem_map]
      exact ⟨fun h => h name hn rfl, fun h _ _ _ => h⟩
    · rw [f.owned name hn]
      rfl

variable {α : Type} {time : α → ℤ} {cutoff : ℤ} {a : α}

def Purged (time : α → ℤ) (cutoff : ℤ) (before after : List α) : Prop :=
  ∀ a ∈ before, (cutoff < time a → a ∈ after) ∧ (time a < cutoff → a ∉ after)

structure Agree (reportSort : KeySort Report.endTime) (statusSort : KeySort NodeStatus.updatedAt) (cutoff : ℤ)
    (t : Reports) (f : Fleet enc) : Prop where
  sameReports : ∀ r, r ∈ (t.deleteByAge reportSort cutoff).2.all ↔ r ∈ deleteByAgeSQL Report.endTime cutoff t.all
  reports : Purged Report.endTime cutoff t.all (t.deleteByAge reportSort cutoff).2.all ∧
    Purged Report.endTime cutoff t.all (deleteByAgeSQL Report.endTime cutoff t.all)
  sameStatuses : ∀ name, (f.purged statusSort cutoff name).Perm
    (deleteByAgeSQL NodeStatus.updatedAt cutoff (f.store.statuses name))
  statuses : ∀ name, Purged NodeStatus.updatedAt cutoff (f.store.statuses name) (f.purged statusSort cutoff name) ∧
    Purged NodeStatus.updatedAt cutoff (f.store.statuses name)
      (deleteByAgeSQL NodeStatus.updatedAt cutoff (f.store.statuses name))

lemma mem_deleteByAgeSQL {rows : List α} : a ∈ deleteByAgeSQL time cutoff rows ↔ a ∈ rows ∧ time a < cutoff := by
  simp [deleteByAgeSQL]

lemma purged_of_eq {before : List α} (h : ∀ a ∈ before, time a = cutoff)
    (after : List α) : Purged time cutoff before after := by
  intro a ha
  have ht := h a ha
  exact ⟨fun hlt => by omega, fun hlt => by omega⟩

lemma eq_cutoff {rows after : List α} (ha : a ∈ rows)
    (haf : a ∈ after ↔ cutoff < time a) (hs : a ∈ after ↔ a ∈ deleteByAgeSQL time cutoff rows) : time a = cutoff := by
  rw [mem_deleteByAgeSQL] at hs
  by_contra hne
  rcases lt_or_gt_of_ne hne with hlt | hgt
  · have := haf.mp (hs.mpr ⟨ha, hlt⟩)
    omega
  · have := (hs.mp (haf.mpr hgt)).2
    omega

theorem purges_agree_iff (reportSort : KeySort Report.endTime) (statusSort : KeySort NodeStatus.updatedAt)
    (t : Reports) (f : Fleet enc) (now : ℤ) (dur : Int64) :
    Agree reportSort statusSort (cutoffAt now dur) t f ↔ (∀ r ∈ t.all, r.endTime = cutoffAt now dur) ∧
        ∀ name, ∀ st ∈ f.store.statuses name, st.updatedAt = cutoffAt now dur := by
  set cutoff := cutoffAt now dur
  have hm : ∀ name st, st ∈ f.purged statusSort cutoff name ↔
      st ∈ f.store.statuses name ∧ cutoff < st.updatedAt := by
    intro name st
    rw [(f.purged_perm statusSort cutoff name).mem_iff, mem_filter, decide_eq_true_eq]
  constructor
  · intro h
    refine ⟨fun r hr => ?_, fun name st hst => ?_⟩
    · exact eq_cutoff hr ((Reports.mem_deleteByAge reportSort cutoff).trans (and_iff_right hr)) (h.sameReports r)
    · exact eq_cutoff hst ((hm name st).trans (and_iff_right hst)) (h.sameStatuses name).mem_iff
  · rintro ⟨hrp, hs⟩
    refine ⟨fun r => ?_, ⟨purged_of_eq hrp _, purged_of_eq hrp _⟩, fun name => ?_,
      fun name => ⟨purged_of_eq (hs name) _, purged_of_eq (hs name) _⟩⟩
    · rw [Reports.mem_deleteByAge, mem_deleteByAgeSQL]
      refine and_congr_right fun hr => ?_
      have ht := hrp r hr
      omega
    · have hn : ∀ st, st ∉ f.purged statusSort cutoff name := fun st hst => by
        obtain ⟨hin, hlt⟩ := (hm name st).mp hst
        have ht := hs name st hin
        omega
      have hn' : ∀ st, st ∉ deleteByAgeSQL NodeStatus.updatedAt cutoff (f.store.statuses name) := fun st hst => by
        obtain ⟨hin, hlt⟩ := mem_deleteByAgeSQL.mp hst
        have ht := hs name st hin
        omega
      rw [eq_nil_iff_forall_not_mem.mpr hn, eq_nil_iff_forall_not_mem.mpr hn']

section

def reportAt (endTime : ℤ) : Report where
  runID := "run"
  startTime := 0
  endTime
  totalResCount := 0
  status := "success"
  runList := []
  resources := []
  data := []
  nodeName := "web"
  organizationID := 0

def oneReport (endTime : ℤ) : Reports where
  table := (∅ : AList fun _ : Text => Report).insert "run" (reportAt endTime)
  keyed k r h := by
    by_cases hk : k = "run"
    · subst hk
      rw [lookup_insert] at h
      cases h
      rfl
    · rw [lookup_insert_ne hk] at h
      cases h

def noReports : Reports := ⟨∅, fun _ _ h => by cases h⟩

lemma consistent_empty : (⟨none, none⟩ : StatusStore NodeStatus).Consistent fun _ => none where
  together := rfl
  listed _ _ h := by cases h
  nodup _ := nodup_nil
  disjoint _ _ _ h := by cases h
  encodable _ _ h := by cases h

def noStatuses : Fleet fun _ => none := ⟨[], ⟨none, none⟩, consistent_empty, fun _ _ => rfl⟩

def statusAt (updatedAt : ℤ) : NodeStatus := ⟨Node.new "web", "up", updatedAt⟩

def oneStatus (updatedAt : ℤ) : Fleet fun _ => none where
  nodes := ["web"]
  store := (⟨none, none⟩ : StatusStore NodeStatus).record "web" (statusAt updatedAt)
  consistent := consistent_empty.record _ rfl
  owned name h := by
    rw [StatusStore.statuses_record consistent_empty, if_neg (by simpa using h)]
    rfl

theorem purges_disagree : cutoffAt 105 100 = 5 ∧
    ¬ Agree (.insertion _) (.insertion _) (cutoffAt 105 100) (oneReport 10) noStatuses ∧
    ¬ Agree (.insertion _) (.insertion _) (cutoffAt 105 100) (oneReport 1) noStatuses ∧
    ¬ Agree (.insertion _) (.insertion _) (cutoffAt 105 100) noReports (oneStatus 10) ∧
    ¬ Agree (.insertion _) (.insertion _) (cutoffAt 105 100) noReports (oneStatus 1) := by
  have hc : cutoffAt 105 100 = 5 := by decide
  rw [hc]
  have hr : ∀ e, reportAt e ∈ (oneReport e).all := fun e => mem_singleton.mpr rfl
  have hs : ∀ e, statusAt e ∈ (oneStatus e).store.statuses "web" := fun e => mem_singleton.mpr rfl
  refine ⟨rfl, fun h => ?_, fun h => ?_, fun h => ?_, fun h => ?_⟩
  · exact absurd (((h.reports.2 _ (hr 10)).1 (by decide))) not_mem_nil
  · exact (h.reports.2 _ (hr 1)).2 (by decide) (mem_singleton.mpr rfl)
  · exact absurd (((h.statuses "web").2 _ (hs 10)).1 (by decide)) not_mem_nil
  · exact ((h.statuses "web").2 _ (hs 1)).2 (by decide) (mem_singleton.mpr rfl)

end

end

end Goiardi.Retention
