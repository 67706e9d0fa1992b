import Goiardi.Push.Jobs

/-! The cancellation and the completion of a push job in the in-memory store and in the SQL back end. The texts of the
two SQL statements differ between MySQL and PostgreSQL in the names of the tables only. -/

namespace Goiardi.Push

open Store List Option

/-- The table `shovey_runs`. -/
structure RunTable where
  rows : List ShoveyRun
  unique : (rows.map fun r => (r.shoveyUUID, r.nodeName)).Nodup

namespace RunTable

variable (t : RunTable) (runID : Text)

def find (n : Text) : Option ShoveyRun := t.rows.find? fun r => r.shoveyUUID = runID ∧ r.nodeName = n

def cancelRow (now : ℤ) (r : ShoveyRun) : ShoveyRun :=
  if r.shoveyUUID = runID ∧ r.status ∉ stopped then { r with status := cancelled, endTime := now } else r

lemma cancelRow_key (now : ℤ) (r : ShoveyRun) :
    ((cancelRow runID now r).shoveyUUID, (cancelRow runID now r).nodeName) = (r.shoveyUUID, r.nodeName) := by
  unfold cancelRow
  split <;> rfl

def cancelRunsSQL (now : ℤ) : RunTable where
  rows := t.rows.map (cancelRow runID now)
  unique := by
    have hkeys : (t.rows.map (cancelRow runID now)).map (fun r => (r.shoveyUUID, r.nodeName)) =
        t.rows.map fun r => (r.shoveyUUID, r.nodeName) := by
      rw [List.map_map]
      exact List.map_congr_left fun r _ => cancelRow_key runID now r
    rw [hkeys]
    exact t.unique

def countSQL : ℕ := t.rows.countP fun r => r.shoveyUUID = runID ∧ r.status ∈ stopped

def checkCompletedSQL (now : ℤ) (job : Shovey) : Shovey :=
  if t.countSQL job.runID = job.nodeNames.length then { job with status := complete, updatedAt := now } else job

end RunTable

structure Backends where
  mem : Store
  table : RunTable
  same : ∀ n, mem.runs.lookup n = table.find mem.job.runID n
  known : ∀ n, (mem.runs.lookup n).isSome = true → n ∈ mem.job.nodeNames

section

variable {runs : Runs} {n : Text}

def Unfinished (runs : Runs) (n : Text) : Prop := ∃ t, statusOf runs n = some t ∧ ¬ Final t

instance : Decidable (Unfinished runs n) :=
  match h : statusOf runs n with
  | none => .isFalse (by simp [Unfinished, h])
  | some t => decidable_of_iff (¬ Final t) (by simp [Unfinished, h])

def statusAfterCancel (runs : Runs) (names : List Text) (n : Text) : Option Text :=
  if n ∈ names ∧ Unfinished runs n then some cancelled else statusOf runs n

lemma statusAfterCancel_eq_iff {names names' : List Text} :
    statusAfterCancel runs names n = statusAfterCancel runs names' n ↔
      (Unfinished runs n → (n ∈ names ↔ n ∈ names')) := by
  unfold statusAfterCancel
  by_cases hn : Unfinished runs n
  · obtain ⟨t, ht, ho⟩ := hn
    have hne : cancelled ≠ t := fun h => ho (.inr h.symm)
    have hu : Unfinished runs n := ⟨t, ht, ho⟩
    by_cases h : n ∈ names <;> by_cases h' : n ∈ names' <;> simp [h, h', hu, ht, hne, hne.symm]
  · simp [hn]

lemma cancelNamed_step {s : Store} {sr : ShoveyRun} (hsr : s.runs.lookup n = some sr) (now : ℤ) :
    let s' := if sr.status ∈ stopped then s else s.saveRun { sr with endTime := now, status := cancelled }
    s'.job = s.job ∧ (∀ m, (s'.runs.lookup m).isSome = (s.runs.lookup m).isSome) ∧
      ∀ m, statusOf s'.runs m = statusAfterCancel s.runs [n] m := by
  have hn := s.named n sr hsr
  have hst : statusOf s.runs n = some sr.status := by rw [statusOf, hsr, map_some]
  by_cases hs : sr.status ∈ stopped
  · refine ⟨by rw [if_pos hs], fun m => by rw [if_pos hs], fun m => ?_⟩
    rw [if_pos hs, statusAfterCancel, if_neg]
    rintro ⟨hm, t, ht, ho⟩
    rw [mem_singleton.mp hm, hst] at ht
    cases ht
    exact ho (.inl hs)
  · refine ⟨by rw [if_neg hs]; rfl, fun m => ?_, fun m => ?_⟩
    · rw [if_neg hs]
      by_cases hm : m = sr.nodeName
      · rw [saveRun, hm, AList.lookup_insert, hn, hsr]
        rfl
      · rw [saveRun, AList.lookup_insert_ne hm]
    · rw [if_neg hs, saveRun, statusOf_insert, statusAfterCancel, hn]
      by_cases hm : m = n
      · rw [if_pos hm, hm]
        by_cases hc : sr.status = cancelled
        · simp [hst, hc]
        · have ho : Unfinished s.runs n := ⟨_, hst, fun h => h.elim hs hc⟩
          simp [ho]
      · simp [hm]

lemma statusAfterCancel_cons {runs' : Runs} (hr : ∀ m, statusOf runs' m = statusAfterCancel runs [n] m)
    (names : List Text) (m : Text) : statusAfterCancel runs' names m = statusAfterCancel runs (n :: names) m := by
  by_cases hm : m = n
  · -- the run of the first node is finished now, and the rest of the names leaves it alone
    subst hm
    have hd : ¬ Unfinished runs' m := by
      rintro ⟨t, ht, ho⟩
      rw [hr m, statusAfterCancel] at ht
      split at ht
      · cases ht
        exact ho (.inr rfl)
      · next h => exact h ⟨.head _, t, ht, ho⟩
    rw [statusAfterCancel, if_neg fun h => hd h.2, hr m, statusAfterCancel_eq_iff]
    simp
  · have hs : statusOf runs' m = statusOf runs m := by rw [hr m, statusAfterCancel, if_neg (by simp [hm])]
    have ho : Unfinished runs' m ↔ Unfinished runs m := by rw [Unfinished, Unfinished, hs]
    simp [statusAfterCancel, hs, ho, hm]

lemma statusOf_cancelNamed (now : ℤ) (names : List Text) (s : Store) (m : Text) :
    statusOf (s.cancelNamed now names).2.runs m =
      statusAfterCancel s.runs (names.takeWhile fun n => (s.runs.lookup n).isSome) m := by
  induction names generalizing s with
  | nil => simp [cancelNamed, statusAfterCancel]
  | cons n names ih =>
    cases hsr : s.runs.lookup n with
    | none =>
      have hr : s.getRun n = .error (runNotFound s.job.runID n) := by simp only [getRun, hsr]
      simp [cancelNamed, hr, hsr, statusAfterCancel]
    | some sr =>
      obtain ⟨-, hh, hs⟩ := cancelNamed_step hsr now
      have hr : s.getRun n = .ok sr := by simp only [getRun, hsr]
      simp only [cancelNamed, hr]
      rw [ih, statusAfterCancel_cons hs]
      simp only [hh, takeWhile_cons, hsr, isSome_some, if_true]

lemma afterCancel_runs (now : ℤ) (mode : Mode) (names : List Text) (s : Store) :
    (s.afterCancel now mode names).runs = s.runs := by
  unfold afterCancel checkCompleted
  split
  · simp only
    split
    · rfl
    · cases mode <;> rfl
  · split <;> rfl

lemma statusOf_cancelRuns (now : ℤ) (mode : Mode) (sent : Except Text Unit) (names : List Text) (s : Store) (m : Text) :
    statusOf (s.cancelRuns now mode sent names).2.runs m =
      statusAfterCancel s.runs (names.takeWhile fun n => (s.runs.lookup n).isSome) m := by
  rw [← statusOf_cancelNamed now, cancelRuns]
  split
  · next h => rw [h]
  · next h => rw [h, afterCancel_runs]

end

lemma completes_iff (s : Store) : s.getNodeRuns.countP (fun sr => Final sr.status) = s.job.nodeNames.length ↔
    ∀ n ∈ s.job.nodeNames, Done s.runs n := by
  rw [getNodeRuns, countP_filterMap, countP_eq_length]
  refine forall₂_congr fun n _ => ?_
  simp only [Done, statusOf]
  cases s.runs.lookup n <;> simp

lemma checkCompleted_of_done {s : Store} (h : ∀ n ∈ s.job.nodeNames, Done s.runs n) (now : ℤ) :
    s.checkCompleted now = s.save now { s.job with status := complete } :=
  if_pos ((completes_iff s).mpr h)

lemma checkCompleted_of_not_done {s : Store} (h : ¬ ∀ n ∈ s.job.nodeNames, Done s.runs n) (now : ℤ) :
    s.checkCompleted now = s :=
  if_neg fun hc => h ((completes_iff s).mp hc)

namespace RunTable

variable {t : RunTable} {runID : Text} {n : Text}

lemma find_cancelRunsSQL (t : RunTable) (runID : Text) (now : ℤ) (n : Text) :
    (t.cancelRunsSQL runID now).find runID n = (t.find runID n).map (cancelRow runID now) := by
  have hk : ∀ r, (cancelRow runID now r).shoveyUUID = r.shoveyUUID ∧ (cancelRow runID now r).nodeName = r.nodeName :=
    fun r => Prod.mk.inj (cancelRow_key runID now r)
  rw [find, cancelRunsSQL, List.find?_map]
  simp only [Function.comp_def, hk]
  rfl

lemma mem_of_find {r : ShoveyRun} (h : t.find runID n = some r) : r ∈ t.rows ∧ r.shoveyUUID = runID ∧ r.nodeName = n :=
  ⟨mem_of_find?_eq_some h, by simpa using List.find?_some h⟩

lemma find_of_mem {r : ShoveyRun} (h : r ∈ t.rows) : t.find r.shoveyUUID r.nodeName = some r := by
  cases hf : t.find r.shoveyUUID r.nodeName with
  | none => simpa using List.find?_eq_none.mp hf r h
  | some r' =>
    obtain ⟨hm, hid, hn⟩ := mem_of_find hf
    rw [inj_on_of_nodup_map t.unique hm h (by rw [hid, hn])]

end RunTable

namespace Backends

variable (b : Backends)

lemma statusOf_cancelRunsSQL (now : ℤ) (n : Text) :
    ((b.table.cancelRunsSQL b.mem.job.runID now).find b.mem.job.runID n).map ShoveyRun.status =
      statusAfterCancel b.mem.runs b.mem.job.nodeNames n := by
  rw [RunTable.find_cancelRunsSQL, ← b.same n, Option.map_map]
  cases hsr : b.mem.runs.lookup n with
  | none =>
    have hn : statusOf b.mem.runs n = none := by rw [statusOf, hsr, map_none]
    simp [statusAfterCancel, Unfinished, hn]
  | some sr =>
    have hst : statusOf b.mem.runs n = some sr.status := by rw [statusOf, hsr, map_some]
    have hk : n ∈ b.mem.job.nodeNames := b.known n (by rw [hsr]; rfl)
    have hid : sr.shoveyUUID = b.mem.job.runID := (RunTable.mem_of_find ((b.same n).symm.trans hsr)).2.1
    have ho : Unfinished b.mem.runs n ↔ ¬ Final sr.status := by simp [Unfinished, hst]
    simp only [map_some, Function.comp_apply, RunTable.cancelRow, hid, true_and, statusAfterCancel, hk, ho,
      hst]
    by_cases hs : sr.status ∈ stopped
    · simp [hs, Final]
    · by_cases hc : sr.status = cancelled
      · rw [hc] at hs
        simp [hs, Final, hc]
      · simp [hs, Final, hc]

lemma mem_nodeNames {n t : Text} (h : statusOf b.mem.runs n = some t) : n ∈ b.mem.job.nodeNames := by
  obtain ⟨r, hr, -⟩ := map_eq_some_iff.mp h
  exact b.known n (by rw [hr]; rfl)

def counted : List Text :=
  (b.table.rows.filter fun r => r.shoveyUUID = b.mem.job.runID ∧ r.status ∈ stopped).map ShoveyRun.nodeName

lemma mem_counted {n : Text} : n ∈ b.counted ↔ ∃ t, statusOf b.mem.runs n = some t ∧ t ∈ stopped := by
  constructor
  · intro h
    obtain ⟨r, hr, rfl⟩ := mem_map.mp h
    obtain ⟨hm, hr⟩ := mem_filter.mp hr
    obtain ⟨hid, hs⟩ := of_decide_eq_true hr
    refine ⟨r.status, ?_, hs⟩
    rw [statusOf, b.same, ← hid, RunTable.find_of_mem hm, map_some]
  · rintro ⟨t, ht, hs⟩
    obtain ⟨r, hr, rfl⟩ := map_eq_some_iff.mp ht
    obtain ⟨hm, hid, hn⟩ := RunTable.mem_of_find ((b.same n).symm.trans hr)
    exact mem_map.mpr ⟨r, mem_filter.mpr ⟨hm, decide_eq_true ⟨hid, hs⟩⟩, hn⟩

lemma nodup_counted : b.counted.Nodup := by
  refine List.Nodup.map_on ?_ ((List.Nodup.of_map _ b.table.unique).filter _)
  intro r hr r' hr' hn
  obtain ⟨hm, hr⟩ := mem_filter.mp hr
  obtain ⟨hm', hr'⟩ := mem_filter.mp hr'
  have hid := (of_decide_eq_true hr).1.trans (of_decide_eq_true hr').1.symm
  exact inj_on_of_nodup_map b.table.unique hm hm' (by rw [hid, hn])

lemma counted_subset : b.counted ⊆ b.mem.job.nodeNames := by
  intro n hn
  obtain ⟨t, ht, -⟩ := b.mem_counted.mp hn
  exact b.mem_nodeNames ht

lemma countSQL_eq_iff : b.table.countSQL b.mem.job.runID = b.mem.job.nodeNames.length ↔
    b.mem.job.nodeNames.Nodup ∧ ∀ n ∈ b.mem.job.nodeNames, n ∈ b.counted := by
  have hc : b.table.countSQL b.mem.job.runID = b.counted.length := by
    rw [RunTable.countSQL, countP_eq_length_filter, counted, length_map]
  have hs := b.nodup_counted.subperm b.counted_subset
  rw [hc]
  constructor
  · intro h
    have hp := hs.perm_of_length_le h.ge
    exact ⟨hp.nodup b.nodup_counted, fun n hn => hp.mem_iff.mpr hn⟩
  · rintro ⟨hnd, ha⟩
    exact le_antisymm hs.length_le (hnd.subperm ha).length_le

def CancelsNamed (now : ℤ) (mode : Mode) (sent : Except Text Unit) (names : List Text) : Prop :=
  ∀ n, statusOf (b.mem.cancelRuns now mode sent names).2.runs n = statusAfterCancel b.mem.runs names n ∧
    ((b.table.cancelRunsSQL b.mem.job.runID now).find b.mem.job.runID n).map ShoveyRun.status =
      statusAfterCancel b.mem.runs names n

def AllDone : Prop := ∀ n ∈ b.mem.job.nodeNames, Done b.mem.runs n

instance : Decidable b.AllDone := inferInstanceAs (Decidable (∀ n ∈ b.mem.job.nodeNames, _))

def withStatus (status : Text) : Store := { b.mem with job := { b.mem.job with status := status } }

def CompletesDone (now : ℤ) : Prop :=
  ∀ status, ((b.withStatus status).checkCompleted now).job.status = (if b.AllDone then complete else status) ∧
    (b.table.checkCompletedSQL now (b.withStatus status).job).status = if b.AllDone then complete else status

lemma cancelsNamed_iff (now : ℤ) (mode : Mode) (sent : Except Text Unit) (names : List Text) :
    b.CancelsNamed now mode sent names ↔
      ∀ n, Unfinished b.mem.runs n → n ∈ names.takeWhile fun m => (b.mem.runs.lookup m).isSome := by
  have hm : ∀ n, n ∈ names.takeWhile (fun m => (b.mem.runs.lookup m).isSome) → n ∈ names := fun n hn =>
    ( takeWhile_prefix _).subset hn
  have hk : ∀ n, Unfinished b.mem.runs n → n ∈ b.mem.job.nodeNames := by
    rintro n ⟨t, ht, -⟩
    exact b.mem_nodeNames ht
  simp only [CancelsNamed, statusOf_cancelRuns, statusOf_cancelRunsSQL, statusAfterCancel_eq_iff]
  refine forall_congr' fun n => ⟨fun h hn => ?_, fun h => ⟨fun hn => ?_, fun hn => ?_⟩⟩
  · exact (h.1 hn).mpr ((h.2 hn).mp (hk n hn))
  · exact ⟨hm n, fun _ => h hn⟩
  · exact ⟨fun _ => hm n (h hn), fun _ => hk n hn⟩

lemma completesDone_iff_count (now : ℤ) : b.CompletesDone now ↔
    (b.table.countSQL b.mem.job.runID = b.mem.job.nodeNames.length ↔ b.AllDone) := by
  constructor
  · intro h
    have hs := (h []).2
    have hne : complete ≠ [] := by decide
    unfold RunTable.checkCompletedSQL withStatus at hs
    by_cases hc : b.table.countSQL b.mem.job.runID = b.mem.job.nodeNames.length <;> by_cases hd : b.AllDone <;>
      simp [hc, hd, hne, hne.symm] at hs ⊢
  · intro h status
    by_cases hd : b.AllDone
    · rw [if_pos hd, checkCompleted_of_done (s := b.withStatus status) hd]
      exact ⟨rfl, congrArg Shovey.status (if_pos (h.mpr hd))⟩
    · rw [if_neg hd, checkCompleted_of_not_done (s := b.withStatus status) hd]
      exact ⟨rfl, congrArg Shovey.status (if_neg fun hc => hd (h.mp hc))⟩

lemma completesDone_iff (now : ℤ) : b.CompletesDone now ↔
    (b.AllDone → b.mem.job.nodeNames.Nodup ∧ ∀ n, statusOf b.mem.runs n ≠ some cancelled) := by
  have hd : (∀ n ∈ b.mem.job.nodeNames, n ∈ b.counted) → b.AllDone := fun h n hn => by
    obtain ⟨t, ht, hs⟩ := b.mem_counted.mp (h n hn)
    exact ⟨t, ht, .inl hs⟩
  have hcn : b.AllDone → ((∀ n ∈ b.mem.job.nodeNames, n ∈ b.counted) ↔
      ∀ n, statusOf b.mem.runs n ≠ some cancelled) := by
    intro ha
    constructor
    · intro h n hn
      obtain ⟨t, ht, hs⟩ := b.mem_counted.mp (h n (b.mem_nodeNames hn))
      rw [hn] at ht
      cases ht
      exact absurd hs (by decide)
    · intro h n hn
      obtain ⟨t, ht, hs | rfl⟩ := ha n hn
      · exact b.mem_counted.mpr ⟨t, ht, hs⟩
      · exact absurd ht (h n)
  rw [completesDone_iff_count, countSQL_eq_iff]
  constructor
  · intro h ha
    exact ⟨(h.mpr ha).1, (hcn ha).mp (h.mpr ha).2⟩
  · exact fun h => ⟨fun hc => hd hc.2, fun ha => ⟨(h ha).1, (hcn ha).mpr (h ha).2⟩⟩

def job (nodeNames : List Text) : Shovey :=
  ⟨"1f0c", nodeNames, "chef-client", 0, 0, running, 300, "100%"⟩

def runIn (x : Text × Text) : ShoveyRun := { shoveyUUID := "1f0c", nodeName := x.1, status := x.2 }

def entriesOf (l : List (Text × Text)) : List (Sigma fun _ : Text => ShoveyRun) := l.map fun x => ⟨x.1, runIn x⟩

lemma dlookup_entriesOf (l : List (Text × Text)) (n : Text) :
    (entriesOf l).dlookup n = (l.map runIn).find? fun r => r.shoveyUUID = "1f0c".toList ∧ r.nodeName = n := by
  induction l with
  | nil => rfl
  | cons x l ih =>
    by_cases hx : x.1 = n
    · subst hx
      simp [entriesOf, runIn]
    · simpa [entriesOf, runIn, hx, Ne.symm hx, dlookup_cons_ne] using ih

lemma mem_of_dlookup {l : List (Text × Text)} {n : Text} {sr : ShoveyRun} (h : (entriesOf l).dlookup n = some sr) :
    sr ∈ l.map runIn ∧ sr.nodeName = n := by
  rw [dlookup_entriesOf] at h
  have hk := List.find?_some h
  exact ⟨mem_of_find?_eq_some h, (of_decide_eq_true hk).2⟩

def backendsOf (nodeNames : List Text) (l : List (Text × Text)) (hnodup : (l.map Prod.fst).Nodup)
    (hknown : ∀ x ∈ l, x.1 ∈ nodeNames) : Backends where
  mem :=
    { job := job nodeNames
      runs := ⟨entriesOf l, by simpa [List.NodupKeys, entriesOf, List.keys, Function.comp_def]⟩
      named := fun n sr h => (mem_of_dlookup h).2 }
  table :=
    { rows := l.map runIn
      unique := by
        refine List.Nodup.of_map Prod.snd ?_
        simpa [List.map_map, Function.comp_def, runIn] using hnodup }
  same n := dlookup_entriesOf l n
  known n h := by
    obtain ⟨sr, hsr⟩ := isSome_iff_exists.mp h
    obtain ⟨hmem, rfl⟩ := mem_of_dlookup hsr
    obtain ⟨x, hx, rfl⟩ := mem_map.mp hmem
    exact hknown x hx

def web : Text := "web"

def db : Text := "db"

def twoRuns (status : Text) : Backends :=
  backendsOf [web, db] [(web, status), (db, status)] (by decide : [web, db].Nodup) (by simp)

def namedTwice : Backends := backendsOf [web, web] [(web, "succeeded")] (by decide) (by simp)

end Backends

end Goiardi.Push
