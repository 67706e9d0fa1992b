import Goiardi.Push.Cancellation

/-! Whether finished runs and jobs stay finished. The operations on a job are executed one after another. -/

namespace Goiardi.Push

open Store Validation List Option

inductive Operation
  | start (now : ℤ) (up : Text → Bool) (quorum : Except Text ℤ) (sent : Except Text Unit)
  | update (now : ℤ) (nodeName : Text) (srData : JsonMap)
  | cancelRuns (now : ℤ) (sent : Except Text Unit) (names : List Text)
  | cancel (now : ℤ) (sent : Except Text Unit)
  | checkCompleted (now : ℤ)

def perform (mode : Mode) (s : Store) : Operation → Store
  | .start now up quorum sent => s.start now up quorum sent
  | .update now n srData =>
    match s.getRun n with
    | .error _ => s
    | .ok sr => s.updateFromJSON now sr srData
  | .cancelRuns now sent names => (s.cancelRuns now mode sent names).2
  | .cancel now sent => (s.cancel now mode sent).2
  | .checkCompleted now => s.checkCompleted now

def JobFinal (status : Text) : Prop := status ∈ [complete, cancelled, quorumFailed]

instance (status : Text) : Decidable (JobFinal status) := inferInstanceAs (Decidable (_ ∈ _))

structure Stays (s s' : Store) : Prop where
  runs : ∀ n t, statusOf s.runs n = some t → Final t → statusOf s'.runs n = some t
  job : JobFinal s.job.status → s'.job.status = s.job.status

section

variable (s : Store)

def HasRun (n : Text) : Prop := (s.runs.lookup n).isSome = true

def Starts (up : Text → Bool) (quorum : Except Text ℤ) : Prop :=
  ∃ qnum, quorum = .ok qnum ∧ qnum ≤ (s.job.nodeNames.filter up).length

def startStatus (up : Text → Bool) (quorum : Except Text ℤ) (sent : Except Text Unit) : Text :=
  match quorum with
  | .error status => status
  | .ok qnum =>
    if ((s.job.nodeNames.filter up).length : ℤ) < qnum then quorumFailed
    else match sent with
      | .error _ => "job_failed"
      | .ok () => running

def firstStatus (up : Text → Bool) (n : Text) : Text := if up n then "created" else "down"

def Breaks : Operation → Prop
  | .start _ up quorum sent =>
    JobFinal s.job.status ∧ startStatus s up quorum sent ≠ s.job.status ∨
      Starts s up quorum ∧ ∃ n ∈ s.job.nodeNames, Done s.runs n ∧ statusOf s.runs n ≠ some (firstStatus up n)
  | .update _ n srData =>
    Done s.runs n ∧ ∃ t, lookupField srData "status" = .str t ∧ statusOf s.runs n ≠ some t
  | .cancelRuns _ _ names => JobFinal s.job.status ∧ (∀ n ∈ names, HasRun s n) ∧
      if names.length = s.job.nodeNames.length then names.Perm s.job.nodeNames ∧ s.job.status ≠ cancelled
      else (∀ n ∈ s.job.nodeNames, Done s.runs n ∨ n ∈ names) ∧ s.job.status ≠ complete
  | .cancel _ _ => JobFinal s.job.status ∧ (∀ n ∈ s.job.nodeNames, HasRun s n) ∧ s.job.status ≠ cancelled
  | .checkCompleted _ => JobFinal s.job.status ∧ (∀ n ∈ s.job.nodeNames, Done s.runs n) ∧ s.job.status ≠ complete

end

lemma Stays.refl (s : Store) : Stays s s := ⟨fun _ _ h _ => h, fun _ => rfl⟩

lemma Stays.trans {s s' s'' : Store} (h : Stays s s') (h' : Stays s' s'') : Stays s s'' where
  runs n t ht hf := h'.runs n t (h.runs n t ht hf) hf
  job hf := (h'.job (by rwa [h.job hf])).trans (h.job hf)

lemma stays_iff_job {s s' : Store} (hr : ∀ n, Done s.runs n → statusOf s'.runs n = statusOf s.runs n) {status : Text}
    {P : Prop} (hy : P → s'.job.status = status) (hno : ¬ P → s'.job.status = s.job.status) :
    Stays s s' ↔ ¬ (JobFinal s.job.status ∧ P ∧ s.job.status ≠ status) := by
  constructor
  · rintro h ⟨hf, hp, hne⟩
    exact hne ((h.job hf).symm.trans (hy hp))
  · intro h
    refine ⟨fun n t ht hf => (hr n ⟨t, ht, hf⟩).trans ht, fun hf => ?_⟩
    by_cases hp : P
    · by_contra hne
      refine h ⟨hf, hp, fun heq => hne ((hy hp).trans heq.symm)⟩
    · exact hno hp

section

variable (mode : Mode) (now : ℤ) (s : Store)

lemma stays_checkCompleted : Stays s (s.checkCompleted now) ↔ ¬ Breaks s (.checkCompleted now) := by
  refine stays_iff_job (fun n _ => by unfold Store.checkCompleted; split <;> rfl) (fun h => ?_) fun h => ?_
  · rw [checkCompleted_of_done h]
    rfl
  · rw [checkCompleted_of_not_done h]

section

variable (sent : Except Text Unit) (names : List Text)

lemma cancelNamed_job : (s.cancelNamed now names).2.job = s.job := by
  induction names generalizing s with
  | nil => rfl
  | cons n names ih =>
    cases hsr : s.runs.lookup n with
    | none => simp only [cancelNamed, getRun, hsr]
    | some sr =>
      simp only [cancelNamed, getRun, hsr]
      rw [ih, (cancelNamed_step hsr now).1]

lemma cancelNamed_eq_ok : (s.cancelNamed now names).1 = .ok () ↔ ∀ n ∈ names, HasRun s n := by
  induction names generalizing s with
  | nil => simp [cancelNamed]
  | cons n names ih =>
    cases hsr : s.runs.lookup n with
    | none => simp [cancelNamed, getRun, HasRun, hsr]
    | some sr =>
      obtain ⟨-, hh, -⟩ := cancelNamed_step hsr now
      simp only [cancelNamed, getRun, hsr]
      rw [ih]
      simp [HasRun, hh, hsr]

lemma cancelRuns_of_runs (h : ∀ n ∈ names, HasRun s n) :
    s.cancelRuns now mode sent names = (sent, (s.cancelNamed now names).2.afterCancel now mode names) := by
  have hok := (cancelNamed_eq_ok now s names).mpr h
  rcases hs : s.cancelNamed now names with ⟨r, s'⟩
  rw [hs] at hok
  cases hok
  simp only [Store.cancelRuns, hs]

lemma cancelRuns_of_missing (h : ¬ ∀ n ∈ names, HasRun s n) :
    ∃ e s', s.cancelRuns now mode sent names = (.error e, s') ∧ s'.job = s.job := by
  rcases hs : s.cancelNamed now names with ⟨r, s'⟩
  have hj := cancelNamed_job now s names
  rw [hs] at hj
  cases r with
  | error e => exact ⟨e, s', by simp only [Store.cancelRuns, hs], hj⟩
  | ok _ => exact absurd ((cancelNamed_eq_ok now s names).mp (by rw [hs])) h

lemma statusOf_cancelRuns_of_done {n : Text} (h : Done s.runs n) :
    statusOf (s.cancelRuns now mode sent names).2.runs n = statusOf s.runs n := by
  rw [statusOf_cancelRuns, statusAfterCancel, if_neg]
  rintro ⟨-, t, ht, ho⟩
  obtain ⟨t', ht', hf⟩ := h
  rw [ht] at ht'
  cases ht'
  exact ho hf

lemma sortStrings_perm (names : List Text) : (sortStrings names).Perm names := perm_insertionSort _ names

lemma sortStrings_eq_iff {names names' : List Text} : sortStrings names = sortStrings names' ↔ names.Perm names' := by
  constructor
  · intro h
    exact (sortStrings_perm names).symm.trans (h ▸ sortStrings_perm names')
  · intro h
    refine List.Perm.eq_of_pairwise' (pairwise_insertionSort (· ≤ ·) names)
      (pairwise_insertionSort (· ≤ ·) names') ?_
    exact (sortStrings_perm names).trans (h.trans (sortStrings_perm names').symm)

lemma done_cancelNamed (h : ∀ n ∈ names, HasRun s n) (m : Text) :
    Done (s.cancelNamed now names).2.runs m ↔ Done s.runs m ∨ m ∈ names := by
  have ha : names.takeWhile (fun n => (s.runs.lookup n).isSome) = names := takeWhile_eq_self_iff.mpr h
  rw [Done, statusOf_cancelNamed, ha]
  by_cases hm : m ∈ names
  · obtain ⟨sr, hsr⟩ := isSome_iff_exists.mp (h m hm)
    have hs : statusOf s.runs m = some sr.status := by rw [statusOf, hsr, map_some]
    by_cases hf : Final sr.status
    · have hd : ¬ Unfinished s.runs m := by simp [Unfinished, hs, hf]
      simp [statusAfterCancel, hm, hd, hs, hf]
    · have ho : Unfinished s.runs m := ⟨_, hs, hf⟩
      simp [statusAfterCancel, hm, ho, Final]
  · simp [statusAfterCancel, hm, Done]

lemma afterCancel_status (s : Store) : (s.afterCancel now mode names).job.status =
    if names.length = s.job.nodeNames.length then
      if names.Perm s.job.nodeNames then cancelled else s.job.status
    else if ∀ n ∈ s.job.nodeNames, Done s.runs n then complete else s.job.status := by
  unfold afterCancel
  split
  · by_cases hp : names.Perm s.job.nodeNames
    · simp only [sortStrings_eq_iff.mpr hp, hp, if_true]
      rfl
    · have hne : sortStrings names ≠ sortStrings s.job.nodeNames := fun h => hp (sortStrings_eq_iff.mp h)
      simp only [hne, hp, if_false]
      cases mode <;> rfl
  · split
    · next h => rw [checkCompleted_of_done h]; rfl
    · next h => rw [checkCompleted_of_not_done h]

lemma stays_cancelRuns : Stays s (s.cancelRuns now mode sent names).2 ↔ ¬ Breaks s (.cancelRuns now sent names) := by
  have hj := cancelNamed_job now s names
  have hs : (∀ n ∈ names, HasRun s n) → (s.cancelRuns now mode sent names).2.job.status =
      if names.length = s.job.nodeNames.length then
        if names.Perm s.job.nodeNames then cancelled else s.job.status
      else if ∀ n ∈ s.job.nodeNames, Done s.runs n ∨ n ∈ names then complete else s.job.status := by
    intro h
    rw [cancelRuns_of_runs mode now s sent names h, afterCancel_status, hj]
    simp only [done_cancelNamed now s names h]
  have hm : ¬ (∀ n ∈ names, HasRun s n) → (s.cancelRuns now mode sent names).2.job.status = s.job.status := by
    intro h
    obtain ⟨e, s', hs', hsm⟩ := cancelRuns_of_missing mode now s sent names h
    rw [hs', hsm]
  by_cases hl : names.length = s.job.nodeNames.length
  · simp only [if_pos hl] at hs
    simp only [Breaks, if_pos hl, ← and_assoc (a := ∀ n ∈ names, HasRun s n)]
    refine stays_iff_job (fun n => statusOf_cancelRuns_of_done mode now s sent names) ?_ ?_
    · rintro ⟨h, hp⟩
      rw [hs h, if_pos hp]
    · intro h
      by_cases ha : ∀ n ∈ names, HasRun s n
      · rw [hs ha, if_neg fun hp => h ⟨ha, hp⟩]
      · exact hm ha
  · simp only [if_neg hl] at hs
    simp only [Breaks, if_neg hl, ← and_assoc (a := ∀ n ∈ names, HasRun s n)]
    refine stays_iff_job (fun n => statusOf_cancelRuns_of_done mode now s sent names) ?_ ?_
    · rintro ⟨h, hd⟩
      rw [hs h, if_pos hd]
    · intro h
      by_cases ha : ∀ n ∈ names, HasRun s n
      · rw [hs ha, if_neg fun hd => h ⟨ha, hd⟩]
      · exact hm ha

lemma cancel_runs : (s.cancel now mode sent).2.runs = (s.cancelRuns now mode sent s.job.nodeNames).2.runs := by
  rcases h : s.cancelRuns now mode sent s.job.nodeNames with ⟨r, s'⟩
  cases r <;> simp only [Store.cancel, h, save]

lemma stays_cancel : Stays s (s.cancel now mode sent).2 ↔ ¬ Breaks s (.cancel now sent) := by
  refine stays_iff_job (fun n hn => ?_) (fun h => ?_) fun h => ?_
  · rw [cancel_runs, statusOf_cancelRuns_of_done mode now s sent _ hn]
  · have hj := cancelNamed_job now s s.job.nodeNames
    have hr := cancelRuns_of_runs mode now s sent _ h
    have hc : ((s.cancelNamed now s.job.nodeNames).2.afterCancel now mode s.job.nodeNames).job.status =
        cancelled := by
      rw [afterCancel_status, hj, if_pos rfl, if_pos (.refl _)]
    cases sent with
    | error e => simp only [Store.cancel, hr, hc]
    | ok _ => simp only [Store.cancel, hr, save]
  · obtain ⟨e, s', hs', hs⟩ := cancelRuns_of_missing mode now s sent _ h
    simp only [Store.cancel, hs', hs]

end

section

lemma withStatus_spec (sr : ShoveyRun) (j : Json) : (withStatus now sr j).nodeName = sr.nodeName ∧
    (withStatus now sr j).status = match j with | .str t => t | _ => sr.status := by
  cases j with
  | str t =>
    refine ⟨?_, rfl⟩
    unfold withStatus
    simp only
    split <;> rfl
  | _ => exact ⟨rfl, rfl⟩

lemma withError_spec (sr : ShoveyRun) (j : Json) :
    (withError sr j).nodeName = sr.nodeName ∧ (withError sr j).status = sr.status := by
  cases j <;> exact ⟨rfl, rfl⟩

lemma withExitStatus_spec (sr : ShoveyRun) (j : Json) :
    (withExitStatus sr j).nodeName = sr.nodeName ∧ (withExitStatus sr j).status = sr.status := by
  unfold withExitStatus
  split <;> exact ⟨rfl, rfl⟩

lemma updated_spec (sr : ShoveyRun) (srData : JsonMap) : (updated now sr srData).nodeName = sr.nodeName ∧
    (updated now sr srData).status =
      match lookupField srData "status" with | .str t => t | _ => sr.status := by
  unfold updated
  simp only [(withExitStatus_spec _ _).1, (withExitStatus_spec _ _).2, (withError_spec _ _).1, (withError_spec _ _).2,
    (withStatus_spec _ _ _).1, (withStatus_spec _ _ _).2, and_self]

lemma stays_update (n : Text) (srData : JsonMap) :
    Stays s (perform mode s (.update now n srData)) ↔ ¬ Breaks s (.update now n srData) := by
  cases hsr : s.runs.lookup n with
  | none =>
    have hsm : perform mode s (.update now n srData) = s := by simp only [perform, getRun, hsr]
    have hno : statusOf s.runs n = none := by rw [statusOf, hsr, map_none]
    simp [hsm, Stays.refl, Breaks, Done, hno]
  | some sr =>
    have hs : statusOf s.runs n = some sr.status := by rw [statusOf, hsr, map_some]
    have hd : Done s.runs n ↔ Final sr.status := by simp [Done, hs]
    have ha : perform mode s (.update now n srData) = s.saveRun (updated now sr srData) := by
      simp only [perform, getRun, hsr, updateFromJSON]
    have hr : ∀ m, statusOf (s.saveRun (updated now sr srData)).runs m =
        if m = n then some (updated now sr srData).status else statusOf s.runs m := by
      intro m
      rw [saveRun, statusOf_insert, (updated_spec now sr srData).1, s.named n sr hsr]
    rw [ha, Breaks, hd, hs]
    constructor
    · rintro h ⟨hf, t, ht, hne⟩
      have hk := h.runs n sr.status hs hf
      rw [hr, if_pos rfl, (updated_spec now sr srData).2, ht] at hk
      exact hne hk.symm
    · intro h
      refine ⟨fun m t ht hf => ?_, fun _ => rfl⟩
      rw [hr]
      split
      · next hm =>
        rw [hm, hs] at ht
        cases ht
        rw [(updated_spec now sr srData).2]
        split
        · next t ht =>
          by_contra hne
          exact h ⟨hf, t, ht, fun heq => hne heq.symm⟩
        · rfl
      · exact ht

end

section

variable (up : Text → Bool) (quorum : Except Text ℤ) (sent : Except Text Unit)

lemma statusOf_saveRuns {f : Text → Text} {srs : List ShoveyRun} (h : ∀ sr ∈ srs, sr.status = f sr.nodeName) (n : Text) :
    statusOf (s.saveRuns srs).runs n = if n ∈ srs.map ShoveyRun.nodeName then some (f n) else statusOf s.runs n := by
  induction srs generalizing s with
  | nil => rfl
  | cons sr srs ih =>
    rw [saveRuns, foldl_cons, ← saveRuns, ih _ fun sr' h' => h sr' (.tail _ h'), saveRun, statusOf_insert,
      h sr (.head _)]
    by_cases hn : n = sr.nodeName <;> simp [hn]

lemma startRuns_status (job : Shovey) : ∀ sr ∈ startRuns now up job, sr.status = firstStatus up sr.nodeName := by
  intro sr hsr
  obtain hsr | hsr := mem_append.mp hsr
  · obtain ⟨m, hm, rfl⟩ := mem_map.mp hsr
    have hup : up m = true := (mem_filter.mp hm).2
    simp [created, firstStatus, hup]
  · obtain ⟨m, hm, rfl⟩ := mem_map.mp hsr
    obtain ⟨hmm, hd⟩ := mem_filter.mp hm
    have hup : ¬ up m = true := fun hup => of_decide_eq_true hd (mem_filter.mpr ⟨hmm, hup⟩)
    simp [down, firstStatus, hup]

lemma mem_startRuns (job : Shovey) (n : Text) :
    n ∈ (startRuns now up job).map ShoveyRun.nodeName ↔ n ∈ job.nodeNames := by
  by_cases hup : up n = true <;> simp [startRuns, created, down, hup]

lemma statusOf_startRuns (n : Text) : statusOf (s.saveRuns (startRuns now up s.job)).runs n =
    if n ∈ s.job.nodeNames then some (firstStatus up n) else statusOf s.runs n := by
  rw [statusOf_saveRuns s (startRuns_status now up s.job)]
  simp only [mem_startRuns]

lemma start_spec : (s.start now up quorum sent).job.status = startStatus s up quorum sent ∧
    (Starts s up quorum → ∀ n, statusOf (s.start now up quorum sent).runs n =
      if n ∈ s.job.nodeNames then some (firstStatus up n) else statusOf s.runs n) ∧
    (¬ Starts s up quorum → (s.start now up quorum sent).runs = s.runs) := by
  cases quorum with
  | error status =>
    refine ⟨rfl, ?_, fun _ => rfl⟩
    rintro ⟨qnum, hq, -⟩
    cases hq
  | ok qnum =>
    by_cases hf : ((s.job.nodeNames.filter up).length : ℤ) < qnum
    · refine ⟨by simp only [start, startJobs, startStatus, if_pos hf, save], ?_, fun _ => ?_⟩
      · rintro ⟨q, hq, hle⟩
        cases hq
        omega
      · simp only [start, startJobs, if_pos hf, save]
    · have hs : Starts s up (.ok qnum) := ⟨qnum, rfl, by omega⟩
      cases sent with
      | error e =>
        refine ⟨by simp only [start, startJobs, startStatus, if_neg hf, save], fun _ n => ?_, fun h => absurd hs h⟩
        simp only [start, startJobs, if_neg hf, save, statusOf_startRuns]
      | ok _ =>
        refine ⟨by simp only [start, startJobs, startStatus, if_neg hf, save], fun _ n => ?_, fun h => absurd hs h⟩
        simp only [start, startJobs, if_neg hf, save, statusOf_startRuns]

lemma stays_start : Stays s (s.start now up quorum sent) ↔ ¬ Breaks s (.start now up quorum sent) := by
  obtain ⟨hj, hst, hnt⟩ := start_spec now s up quorum sent
  constructor
  · rintro h (⟨hf, hne⟩ | ⟨hs, n, hn, ⟨t, ht, hf⟩, hne⟩)
    · exact hne (hj.symm.trans (h.job hf))
    · have hk := h.runs n t ht hf
      rw [hst hs, if_pos hn] at hk
      exact hne (ht.trans hk.symm)
  · intro h
    refine ⟨fun n t ht hf => ?_, fun hf => ?_⟩
    · by_cases hs : Starts s up quorum
      · rw [hst hs]
        split
        · next hn =>
          by_contra hne
          exact h (.inr ⟨hs, n, hn, ⟨t, ht, hf⟩, fun heq => hne (heq.symm.trans ht)⟩)
        · exact ht
      · rw [hnt hs, ht]
    · by_contra hne
      exact h (.inl ⟨hf, fun heq => hne (hj.trans heq)⟩)

end

lemma stays_perform (op : Operation) : Stays s (perform mode s op) ↔ ¬ Breaks s op := by
  cases op with
  | start now up quorum sent => exact stays_start now s up quorum sent
  | update now n srData => exact stays_update mode now s n srData
  | cancelRuns now sent names => exact stays_cancelRuns mode now s sent names
  | cancel now sent => exact stays_cancel mode now s sent
  | checkCompleted now => exact stays_checkCompleted now s

end

section

variable (mode : Mode) (s : Store)

def performAll (ops : List Operation) : Store := ops.foldl (perform mode) s

lemma performAll_take_succ {ops : List Operation} {i : ℕ} (h : i < ops.length) :
    performAll mode s (ops.take (i + 1)) = perform mode (performAll mode s (ops.take i)) ops[i] := by
  rw [performAll, take_succ_eq_append_getElem h, foldl_append, ← performAll]
  rfl

/-- In a run the finished statuses stay from each state to each later one exactly if no operation, in the state that it
meets, changes one. -/
theorem finished_stays_iff (ops : List Operation) :
    (∀ i j, i ≤ j → Stays (performAll mode s (ops.take i)) (performAll mode s (ops.take j))) ↔
      ∀ i op, ops[i]? = some op → ¬ Breaks (performAll mode s (ops.take i)) op := by
  constructor
  · intro h i op hop
    obtain ⟨hi, rfl⟩ := List.getElem?_eq_some_iff.mp hop
    rw [← stays_perform mode, ← performAll_take_succ mode s hi]
    exact h i (i + 1) (Nat.le_succ i)
  · intro h i j hij
    induction j, hij using Nat.le_induction with
    | base => exact .refl _
    | succ j _ ih =>
      refine ih.trans ?_
      by_cases hj : j < ops.length
      · rw [performAll_take_succ mode s hj, stays_perform]
        exact h j _ (List.getElem?_eq_getElem hj)
      · rw [take_of_length_le (by omega), take_of_length_le (by omega)]
        exact .refl _

section

open Backends (web)

def newJob : Store := .empty (submit 0 "1f0c" "chef-client" 300 "100%" [web])

def startWeb : Operation := .start 1 (fun _ => true) (.ok 1) (.ok ())

def report (status : Text) : Operation := .update 2 web [("status", .str status)]

def reportTwice : List Operation := [startWeb, report "succeeded", report "failed"]

def checkCancelled : List Operation := [startWeb, .cancel 2 (.ok ()), .checkCompleted 3]

def cancelComplete : List Operation := [startWeb, report "succeeded", .checkCompleted 3, .cancel 4 (.ok ())]

theorem finished_changes : ¬ (∀ i j, i ≤ j → Stays (performAll .copying newJob (reportTwice.take i))
      (performAll .copying newJob (reportTwice.take j))) ∧
    ¬ (∀ i j, i ≤ j → Stays (performAll .copying newJob (checkCancelled.take i))
      (performAll .copying newJob (checkCancelled.take j))) ∧
    ¬ (∀ i j, i ≤ j → Stays (performAll .copying newJob (cancelComplete.take i))
      (performAll .copying newJob (cancelComplete.take j))) := by
  refine ⟨fun h => ?_, fun h => ?_, fun h => ?_⟩
  · exact absurd ((h 2 3 (by decide)).runs web "succeeded" (by decide +kernel) (by decide +kernel))
      (by decide +kernel)
  · exact absurd ((h 2 3 (by decide)).job (by decide +kernel)) (by decide +kernel)
  · exact absurd ((h 3 4 (by decide)).job (by decide +kernel)) (by decide +kernel)

end

end

end Goiardi.Push
