import Goiardi.Dump.RoundTrip

/-! The reports of runs: how they are begun, ended and cleaned up, and how they are listed. -/

namespace Goiardi.Reports

open Validation List AList
open Dump (Formats Report newReport updateReport)
open Retention (cutoffAt)
open Uploads (Fault)

section

inductive ReportCall
  | start (nodeName : Text) (jsonReport : JsonMap)
  | finish (runID : Text) (jsonReport : JsonMap)
  | purge (now : ℤ) (dur : Int64)

variable (formats : Formats) (sorting : KeySort fun r : Report => r.endTime)

def deleteByAge (cutoff : ℤ) (t : Table Report) : ℕ × Table Report :=
  purgeSorted sorting (·.runID) (fun r => cutoff < r.endTime) (fun r => !decide (cutoff < r.endTime)) t

def save (t : Table Report) : Except Fault Report → Table Report
  | .ok r => t.insert r.runID r
  | .error _ => t

def call (t : Table Report) : ReportCall → Table Report
  | .start nodeName v => save t (newReport formats t nodeName v)
  | .finish runID v =>
    match t.lookup runID with
    | none => t
    | some r => save t (updateReport formats r v)
  | .purge now dur => (deleteByAge sorting (cutoffAt now dur) t).2

/-- What a clean-up should do: a report that has no end yet stays. -/
structure CleansUp (cutoff : ℤ) (t : Table Report) (result : ℕ × Table Report) : Prop where
  ended : ∀ k r, t.lookup k = some r → result.2.lookup k = none → r.ended = true ∧ r.endTime ≤ cutoff
  gone : ∀ k r, t.lookup k = some r → r.ended = true → r.endTime ≤ cutoff → result.2.lookup k = none
  count : result.1 = t.list.countP fun e => (result.2.lookup e.1).isNone

def AlwaysCleansUp : Table Report → List ReportCall → Prop
  | _, [] => True
  | t, c :: cs => (∀ now dur, c = .purge now dur →
      CleansUp (cutoffAt now dur) t (deleteByAge sorting (cutoffAt now dur) t)) ∧
    AlwaysCleansUp (call formats sorting t c) cs

/-- No run is under way at a clean-up, unless its cutoff lies before the zero time. -/
def NoneRunning : Table Report → List ReportCall → Prop
  | _, [] => True
  | t, c :: cs => (∀ now dur, c = .purge now dur → ∀ k r, t.lookup k = some r → r.ended = false → cutoffAt now dur < 0) ∧
    NoneRunning (call formats sorting t c) cs

structure Stored (t : Table Report) : Prop where
  keyed : ∀ k r, t.lookup k = some r → r.runID = k
  running : ∀ k r, t.lookup k = some r → r.ended = false → r.endTime = 0

variable {formats} {t : Table Report} {cutoff : ℤ} {r : Report}

lemma deleteByAge_spec (h : Stored t) (cutoff : ℤ) :
    (deleteByAge sorting cutoff t).1 = (t.list.map Prod.snd).countP (fun r => !decide (cutoff < r.endTime)) ∧
      ∀ k, (deleteByAge sorting cutoff t).2.lookup k = (t.lookup k).filter fun r => cutoff < r.endTime :=
  purgeSorted_cutoff sorting h.keyed

lemma lookup_deleteByAge (h : Stored t) {k : Text} (hr : t.lookup k = some r) :
    (deleteByAge sorting cutoff t).2.lookup k = none ↔ r.endTime ≤ cutoff := by
  rw [(deleteByAge_spec sorting h cutoff).2, hr]
  simp [Option.filter]

lemma cleansUp_iff (h : Stored t) : CleansUp cutoff t (deleteByAge sorting cutoff t) ↔
    ∀ k r, t.lookup k = some r → r.ended = false → cutoff < 0 := by
  constructor
  · intro hc k r hr he
    by_contra hct
    have hz := h.running k r hr he
    have hnn := (lookup_deleteByAge sorting h hr).mpr (by omega : r.endTime ≤ cutoff)
    rw [(hc.ended k r hr hnn).1] at he
    cases he
  · intro hn
    refine ⟨fun k r hr hnn => ?_, fun k r hr _ hle => (lookup_deleteByAge sorting h hr).mpr hle, ?_⟩
    · have hle := (lookup_deleteByAge sorting h hr).mp hnn
      refine ⟨?_, hle⟩
      by_contra he
      have he : r.ended = false := by simpa using he
      have hz := h.running k r hr he
      have hct := hn k r hr he
      omega
    · rw [(deleteByAge_spec sorting h cutoff).1, countP_map]
      refine countP_congr fun e he => ?_
      rw [Option.isNone_iff_eq_none, lookup_deleteByAge sorting h (Table.mem_list.mp he)]
      simp

lemma Stored.insert (h : Stored t) (hr : r.ended = false → r.endTime = 0) : Stored (t.insert r.runID r) := by
  have hc (k : Text) (r' : Report) (hl : (t.insert r.runID r).lookup k = some r') :
      k = r.runID ∧ r' = r ∨ t.lookup k = some r' := by
    by_cases hk : k = r.runID
    · rw [hk, lookup_insert] at hl
      exact .inl ⟨hk, (Option.some.inj hl).symm⟩
    · exact .inr (lookup_insert_ne hk ▸ hl)
  refine ⟨fun k r' hl => ?_, fun k r' hl he => ?_⟩ <;> rcases hc k r' hl with ⟨rfl, rfl⟩ | hl
  · rfl
  · exact h.keyed k r' hl
  · exact hr he
  · exact h.running k r' hl he

lemma newReport_running {nodeName : Text} {v : JsonMap} (h : newReport formats t nodeName v = .ok r) : r.endTime = 0 := by
  simp only [newReport, bind_eq_ok_iff] at h
  obtain ⟨_, -, _, -, _, -, _, -, _, -, _, -, h⟩ := h
  cases h
  rfl

lemma updateReport_ended {v : JsonMap} {r' : Report} (h : updateReport formats r v = .ok r') : r'.ended = true := by
  simp only [updateReport, bind_eq_ok_iff] at h
  obtain ⟨_, -, _, -, _, -, _, -, _, -, _, -, _, -, h⟩ := h
  split at h <;> cases h
  rfl

lemma Stored.call (h : Stored t) (c : ReportCall) : Stored (call formats sorting t c) := by
  cases c with
  | start nodeName v =>
    rw [Reports.call]
    cases hn : newReport formats t nodeName v with
    | error e => exact h
    | ok r => exact h.insert fun _ => newReport_running hn
  | finish runID v =>
    rw [Reports.call]
    split
    · exact h
    · next r hr =>
      cases hu : updateReport formats r v with
      | error e => exact h
      | ok r' => exact h.insert fun he => absurd he (by rw [updateReport_ended hu]; decide)
  | purge now dur =>
    have hl (k : Text) (r : Report) (hr : (Reports.call formats sorting t (.purge now dur)).lookup k = some r) :
        t.lookup k = some r := by
      rw [Reports.call, (deleteByAge_spec sorting h _).2] at hr
      exact (Option.filter_eq_some_iff.mp hr).1
    exact ⟨fun k r hr => h.keyed k r (hl k r hr), fun k r hr => h.running k r (hl k r hr)⟩

/-- Clean-ups do what they should exactly if no run is under way at any of them. -/
theorem alwaysCleansUp_iff (formats : Formats) (calls : List ReportCall) :
    AlwaysCleansUp formats sorting ∅ calls ↔ NoneRunning formats sorting ∅ calls := by
  have hr : ∀ t, Stored t → (AlwaysCleansUp formats sorting t calls ↔ NoneRunning formats sorting t calls) := by
    induction calls with
    | nil => exact fun _ _ => Iff.rfl
    | cons c cs ih =>
      intro t ht
      rw [AlwaysCleansUp, NoneRunning, ih _ (ht.call sorting c)]
      simp only [cleansUp_iff sorting ht]
  exact hr ∅ ⟨fun _ _ h => (by cases h), fun _ _ h => (by cases h)⟩

def begun (runID nodeName : Text) (startTime : ℤ) : Report :=
  { runID, startTime, endTime := 0, totalResCount := 0, status := "started", runList := [], resources := [], data := []
    nodeName, organizationID := 0, ended := false }

def runID : Text := "00000000-0000-0000-0000-000000000000".toList

theorem running_report_deleted : ¬ AlwaysCleansUp Dump.decimals (.insertion _) ∅
    [.start "web" [("run_id".toList, .str runID), ("action".toList, .str "start"), ("start_time".toList, .str "5")],
      .purge 9 1] := by
  have he : Stored ∅ := ⟨fun _ _ h => (by cases h), fun _ _ h => (by cases h)⟩
  rintro ⟨-, h, -⟩
  have hc := (cleansUp_iff _ (he.call _ _)).mp (h 9 1 rfl) runID (begun runID "web" 5) rfl rfl
  revert hc
  decide

end

section

variable (stored : List Report) (start stop : ℤ) (rows : ℕ) (status nodeName : Text)

def checkTimeRange (r : Report) : Bool := start < r.startTime && r.startTime < stop

def ofStatus (r : Report) : Bool := status = [] || r.status = status

-- the limit is looked at after a report is taken
def collect (wanted : Report → Bool) : ℕ → List Report → List Report
  | _, [] => []
  | i, r :: rs =>
    let i' := if wanted r then i + 1 else i
    (if wanted r then [r] else []) ++ if rows < i' then [] else collect wanted i' rs

def getReportList : List Report :=
  collect rows (fun r => checkTimeRange start stop r && ofStatus status r) 0 stored

def getNodeList : List Report :=
  (getReportList stored start stop rows status).filter fun r => nodeName = r.nodeName && ofStatus status r

def matching : List Report := stored.filter fun r => checkTimeRange start stop r && ofStatus status r

/-- `rows` is kept to, as `WHERE` and `LIMIT` do it. -/
structure Honours : Prop where
  limited : (getReportList stored start stop rows status).length ≤ rows
  wanted : ∀ r ∈ getReportList stored start stop rows status, r ∈ matching stored start stop status
  all : (getReportList stored start stop rows status).length < rows →
    getReportList stored start stop rows status = matching stored start stop status
  node : ∀ r ∈ getNodeList stored start stop rows status nodeName, r.nodeName = nodeName
  count : (getNodeList stored start stop rows status nodeName).length =
    min rows ((matching stored start stop status).filter fun r => nodeName = r.nodeName).length

lemma collect_eq (wanted : Report → Bool) {i : ℕ} (hi : i ≤ rows) :
    collect rows wanted i stored = (stored.filter wanted).take (rows + 1 - i) := by
  induction stored generalizing i with
  | nil => simp [collect]
  | cons r rs ih =>
    rw [collect, filter_cons]
    by_cases hr : wanted r = true
    · simp only [hr, if_true]
      rw [show rows + 1 - i = rows + 1 - (i + 1) + 1 by omega, take_succ_cons]
      by_cases hlt : rows < i + 1
      · simp [hlt, show rows - i = 0 by omega]
      · simp [hlt, ih (Nat.le_of_not_lt hlt)]
    · simp [hr, hi, ih hi]

end

end Goiardi.Reports
