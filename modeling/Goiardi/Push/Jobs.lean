import Goiardi.Base.Shelf
import Goiardi.Cookbooks.Validation

/-! Push jobs in the in-memory store. A job has one run for each of its nodes; the store keeps the run under the id of
the job followed by the name of the node, and here, where one job is followed, under the name of the node. -/

namespace Goiardi.Push

open AList

open Validation (Json JsonMap lookupField)

structure Shovey where
  runID : Text
  nodeNames : List Text
  command : Text
  createdAt : ℤ
  updatedAt : ℤ
  status : Text
  timeout : ℤ
  quorum : Text
deriving DecidableEq

-- the zero time is 0
structure ShoveyRun where
  shoveyUUID : Text
  nodeName : Text
  status : Text
  ackTime : ℤ := 0
  endTime : ℤ := 0
  error : Text := []
  exitStatus : UInt8 := 0
deriving DecidableEq

abbrev Runs := AList fun _ : Text => ShoveyRun

/-- The statuses that `CancelRuns` leaves alone. -/
def stopped : List Text := ["invalid", "succeeded", "failed", "down", "nacked"].map String.toList

def cancelled : Text := "cancelled"

def complete : Text := "complete"

def running : Text := "running"

def quorumFailed : Text := "quorum_failed"

/-- The statuses that `checkCompleted` counts. -/
def Final (status : Text) : Prop := status ∈ stopped ∨ status = cancelled

instance (status : Text) : Decidable (Final status) := inferInstanceAs (Decidable (_ ∨ _))

section

variable (runs : Runs) (n : Text)

def statusOf : Option Text := (runs.lookup n).map ShoveyRun.status

def Done : Prop := ∃ t, statusOf runs n = some t ∧ Final t

instance : Decidable (Done runs n) :=
  match h : statusOf runs n with
  | none => .isFalse (by simp [Done, h])
  | some t => decidable_of_iff (Final t) (by simp [Done, h])

variable {runs n}

lemma statusOf_insert (runs : Runs) (sr : ShoveyRun) (m : Text) :
    statusOf (runs.insert n sr) m = if m = n then some sr.status else statusOf runs m := by
  unfold statusOf
  split
  · next h => rw [h, lookup_insert, Option.map_some]
  · next h => rw [lookup_insert_ne h]

end

def submit (now : ℤ) (runID command : Text) (timeout : ℤ) (quorum : Text) (nodeNames : List Text) : Shovey where
  runID := runID
  nodeNames := nodeNames
  command := command
  createdAt := now
  updatedAt := now
  status := "submitted"
  timeout := timeout
  quorum := quorum

structure Store where
  job : Shovey
  runs : Runs
  named : ∀ n sr, runs.lookup n = some sr → sr.nodeName = n

namespace Store

def empty (job : Shovey) : Store := ⟨job, ∅, fun _ _ h => nomatch h⟩

section

variable (s : Store)

def save (now : ℤ) (job : Shovey) : Store := { s with job := { job with updatedAt := now } }

def saveRun (sr : ShoveyRun) : Store where
  job := s.job
  runs := s.runs.insert sr.nodeName sr
  named n sr' h := by
    by_cases hn : n = sr.nodeName
    · rw [hn, lookup_insert] at h
      cases h
      exact hn.symm
    · rw [lookup_insert_ne hn] at h
      exact s.named n sr' h

def runNotFound (runID nodeName : Text) : Text :=
  "run " ++ runID ++ " for node " ++ nodeName ++ " not found"

def getRun (nodeName : Text) : Except Text ShoveyRun :=
  match s.runs.lookup nodeName with
  | some sr => .ok sr
  | none => .error (runNotFound s.job.runID nodeName)

-- the nodes without a run are left out
def getNodeRuns : List ShoveyRun := s.job.nodeNames.filterMap s.runs.lookup

end

section

variable (now : ℤ)

def checkCompleted (s : Store) : Store :=
  if s.getNodeRuns.countP (fun sr => Final sr.status) = s.job.nodeNames.length then
    s.save now { s.job with status := complete }
  else s

/-- The loop of `CancelRuns`. It ends at the first node without a run. -/
def cancelNamed : List Text → Store → Except Text Unit × Store
  | [], s => (.ok (), s)
  | n :: ns, s =>
    match s.getRun n with
    | .error e => (.error e, s)
    | .ok sr =>
      cancelNamed ns (if sr.status ∈ stopped then s else s.saveRun { sr with endTime := now, status := cancelled })

def sortStrings (names : List Text) : List Text := names.insertionSort (· ≤ ·)

/-- The status of the job after some of its runs were cancelled. A store that shares its objects sees that the names
were sorted even where the job is not saved. -/
def afterCancel (mode : Mode) (names : List Text) (s : Store) : Store :=
  if names.length = s.job.nodeNames.length then
    let job := { s.job with nodeNames := sortStrings s.job.nodeNames }
    if sortStrings names = job.nodeNames then s.save now { job with status := cancelled }
    else match mode with
      | .copying => s
      | .sharing => { s with job := job }
  else s.checkCompleted now

-- `sent` is what the signing and the query that tells the nodes give
def cancelRuns (mode : Mode) (sent : Except Text Unit) (names : List Text) (s : Store) : Except Text Unit × Store :=
  match s.cancelNamed now names with
  | (.error e, s) => (.error e, s)
  | (.ok (), s) => (sent, s.afterCancel now mode names)

def cancel (mode : Mode) (sent : Except Text Unit) (s : Store) : Except Text Unit × Store :=
  match s.cancelRuns now mode sent s.job.nodeNames with
  | (.error e, s) => (.error e, s)
  | (.ok (), s) => (.ok (), s.save now { s.job with status := cancelled })

def intify : Json → Option ℤ
  | .num literal => if (Text.parseInt literal).2 then some (Text.parseInt literal).1 else none
  | _ => none

def withStatus (sr : ShoveyRun) : Json → ShoveyRun
  | .str status =>
    let sr := if status ∈ ["invalid", "succeeded", "failed", "nacked"].map String.toList then { sr with endTime := now }
      else sr
    { sr with status := status }
  | _ => sr

def withError (sr : ShoveyRun) : Json → ShoveyRun
  | .str error => { sr with error := error }
  | _ => sr

def withExitStatus (sr : ShoveyRun) (j : Json) : ShoveyRun :=
  match intify j with
  | some e => { sr with exitStatus := UInt8.ofInt e }
  | none => sr

def updated (sr : ShoveyRun) (srData : JsonMap) : ShoveyRun :=
  let sr := withStatus now sr (lookupField srData "status")
  let sr := withError sr (lookupField srData "error")
  withExitStatus sr (lookupField srData "exit_status")

def updateFromJSON (sr : ShoveyRun) (srData : JsonMap) (s : Store) : Store := s.saveRun (updated now sr srData)

end

section

variable (now : ℤ) (up : Text → Bool)

def created (runID n : Text) : ShoveyRun := { shoveyUUID := runID, nodeName := n, status := "created" }

def down (runID n : Text) : ShoveyRun :=
  { shoveyUUID := runID, nodeName := n, status := "down", endTime := now }

def startRuns (job : Shovey) : List ShoveyRun :=
  (job.nodeNames.filter up).map (created job.runID) ++
    (job.nodeNames.filter fun n => n ∉ job.nodeNames.filter up).map (down now job.runID)

def saveRuns (srs : List ShoveyRun) (s : Store) : Store := srs.foldl saveRun s

/-- `quorum` is what `getQuorum` gives, a number of nodes or the status of its error. -/
def startJobs (quorum : Except Text ℤ) (sent : Except Text Unit) (s : Store) : Option Text × Store :=
  match quorum with
  | .error status => (some status, s)
  | .ok qnum =>
    if ((s.job.nodeNames.filter up).length : ℤ) < qnum then (some quorumFailed, s)
    else
      let s := s.saveRuns (startRuns now up s.job)
      match sent with
      | .error _ => (some "job_failed", s)
      | .ok () => (none, s)

def start (quorum : Except Text ℤ) (sent : Except Text Unit) (s : Store) : Store :=
  match s.startJobs now up quorum sent with
  | (some status, s) => s.save now { s.job with status := status }
  | (none, s) => s.save now { s.job with status := running }

end

end Store

end Goiardi.Push
