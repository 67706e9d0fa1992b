import Mathlib.Data.List.Infix

/-! The copy of the data store and of the search index on disk.

The flag `updated` says that the file is out of date. A save clears it before it writes anything. -/

namespace Goiardi.Persistence

structure State (α : Type) where
  content : α
  disk : Option α
  updated : Bool
deriving DecidableEq

/-- The places where a save may fail. `recovered` is a panic of the encoder that `Save` recovers from: the deferred
function assigns to a variable that is not returned, so the caller sees no error. -/
inductive Step
  | file
  | create
  | cache
  | recovered
  | list
  | store
  | index
  | flush
  | close
  | rename
deriving DecidableEq

abbrev Attempt := Step → Bool

inductive Kind
  | dataStore
  | fileIndex
deriving DecidableEq

def encoders : Kind → List Step
  | .dataStore => [.cache, .recovered, .list, .store]
  | .fileIndex => [.index]

variable {α : Type}

-- the error of `zfp.Close` is dropped: what was not flushed is missing in the file that is renamed
def write (kind : Kind) (fails : Attempt) (s : State α) : Except Step Unit × State α :=
  match (encoders kind).find? fails with
  | some .recovered => (.ok (), s)
  | some e => (.error e, s)
  | none =>
    if fails .close then (.error .close, s)
    else if fails .rename then (.error .rename, s)
    else (.ok (), { s with disk := if fails .flush then none else some s.content })

def dataStoreSave (fails : Attempt) (s : State α) : Except Step Unit × State α :=
  if s.updated = false then (.ok (), s)
  else if fails .file then (.error .file, s)
  else if fails .create then (.error .create, s)
  else write .dataStore fails { s with updated := false }

def fileIndexSave (fails : Attempt) (s : State α) : Except Step Unit × State α :=
  if fails .file then (.error .file, s)
  else if s.updated = false then (.ok (), s)
  else if fails .create then (.error .create, s)
  else write .fileIndex fails { s with updated := false }

def save : Kind → Attempt → State α → Except Step Unit × State α
  | .dataStore => dataStoreSave
  | .fileIndex => fileIndexSave

/-- `arrange` is a change that does not set the flag: `LatestNodeStatus` sorts the stored list of a node's statuses. -/
inductive Op (α : Type)
  | change (f : α → α)
  | arrange (f : α → α)
  | save (fails : Attempt)

def step (kind : Kind) (s : State α) : Op α → State α
  | .change f => { s with content := f s.content, updated := true }
  | .arrange f => { s with content := f s.content }
  | .save fails => (save kind fails s).2

def run (kind : Kind) (s : State α) (ops : List (Op α)) : State α := ops.foldl (step kind) s

def Faithful (s : State α) : Prop := s.updated = false → s.disk = some s.content

def sound : Attempt := fun _ => false

def Saves (kind : Kind) (s : State α) : Prop := (save kind sound s).2.disk = some (save kind sound s).2.content

def Clears (fails : Attempt) (s : State α) : Prop := s.updated = true ∧ fails .file = false ∧ fails .create = false

def Stops (kind : Kind) (fails : Attempt) : Prop :=
  (∃ e ∈ encoders kind, fails e = true) ∨ fails .close = true ∨ fails .rename = true

def Loses (kind : Kind) (s : State α) : Op α → Prop
  | .change _ => False
  | .arrange f => s.updated = false ∧ f s.content ≠ s.content
  | .save fails => Clears fails s ∧
      (Stops kind fails ∧ s.disk ≠ some s.content ∨ ¬ Stops kind fails ∧ fails .flush = true)

variable {kind : Kind} {fails : Attempt} {s : State α}

lemma save_of_clears (h : Clears fails s) : save kind fails s = write kind fails { s with updated := false } := by
  obtain ⟨hu, hf, hc⟩ := h
  cases kind with
  | dataStore => simp [save, dataStoreSave, hu, hf, hc]
  | fileIndex => simp [save, fileIndexSave, hu, hf, hc]

lemma save_of_not_clears (h : ¬ Clears fails s) : (save kind fails s).2 = s := by
  cases hu : s.updated <;> cases hf : fails .file <;> cases hc : fails .create
  case true.false.false => exact absurd ⟨hu, hf, hc⟩ h
  all_goals cases kind <;> simp [save, dataStoreSave, fileIndexSave, hu, hf, hc]

lemma write_of_stops (h : Stops kind fails) : (write kind fails s).2 = s := by
  unfold write
  split
  · rfl
  · rfl
  · next hn =>
    rcases h with ⟨e, he, hf⟩ | hc | hr
    · exact absurd hf (List.find?_eq_none.mp hn e he)
    · rw [if_pos hc]
    · rw [if_pos hr]
      split <;> rfl

lemma write_of_not_stops (h : ¬ Stops kind fails) :
    (write kind fails s).2 = { s with disk := if fails .flush then none else some s.content } := by
  have hn : (encoders kind).find? fails = none :=
    List.find?_eq_none.mpr fun e he hf => h (.inl ⟨e, he, hf⟩)
  have hcl : ¬ fails .close = true := fun hc => h (.inr (.inl hc))
  have hrn : ¬ fails .rename = true := fun hr => h (.inr (.inr hr))
  simp only [write, hn, if_neg hcl, if_neg hrn]

lemma faithful_save_iff (hs : Faithful s) : Faithful (save kind fails s).2 ↔ ¬ Loses kind s (.save fails) := by
  by_cases hc : Clears fails s
  · rw [save_of_clears hc]
    by_cases hst : Stops kind fails
    · rw [write_of_stops hst]
      simp [Faithful, Loses, hc, hst]
    · rw [write_of_not_stops hst]
      cases hf : fails .flush <;> simp [Faithful, Loses, hc, hst, hf]
  · rw [save_of_not_clears hc]
    exact iff_of_true hs fun hl => hc hl.1

lemma faithful_step_iff (hs : Faithful s) (op : Op α) : Faithful (step kind s op) ↔ ¬ Loses kind s op := by
  cases op with
  | change f => exact iff_of_true (fun h => nomatch h) not_false
  | arrange f =>
    cases hu : s.updated with
    | true => simp [Faithful, Loses, step, hu]
    | false => simp [Faithful, Loses, step, hu, hs hu, eq_comm]
  | save fails => exact faithful_save_iff hs

lemma Faithful.saves (hs : Faithful s) : Saves kind s := by
  have hst : ¬ Stops kind sound := by
    rintro (⟨e, -, he⟩ | hc | hr)
    · cases he
    · cases hc
    · cases hr
  cases hu : s.updated with
  | true =>
    have hc : Clears sound s := ⟨hu, rfl, rfl⟩
    rw [Saves, save_of_clears hc, write_of_not_stops hst]
    rfl
  | false =>
    rw [Saves, save_of_not_clears fun hc => by simp [Clears, hu] at hc]
    exact hs hu

/-- Whenever the flag is clear the file is the content, and the next save that does not fail makes them equal. -/
theorem run_faithful_iff (kind : Kind) (c : α) (ops : List (Op α)) :
    (∀ pre, pre <+: ops → Faithful (run kind ⟨c, some c, false⟩ pre) ∧ Saves kind (run kind ⟨c, some c, false⟩ pre)) ↔
      ∀ pre op, pre ++ [op] <+: ops → ¬ Loses kind (run kind ⟨c, some c, false⟩ pre) op := by
  have hsn : ∀ (pre : List (Op α)) op, run kind ⟨c, some c, false⟩ (pre ++ [op]) =
      step kind (run kind ⟨c, some c, false⟩ pre) op := by
    intro pre op
    simp [run, List.foldl_append]
  constructor
  · intro h pre op hop
    have hs := (h pre ((List.prefix_append pre [op]).trans hop)).1
    have hs' := (h (pre ++ [op]) hop).1
    rw [hsn] at hs'
    exact (faithful_step_iff hs op).mp hs'
  · intro h pre hp
    suffices hs : Faithful (run kind ⟨c, some c, false⟩ pre) from ⟨hs, hs.saves⟩
    induction pre using List.reverseRecOn with
    | nil => exact fun _ => rfl
    | append_singleton pre op ih =>
      rw [hsn]
      exact (faithful_step_iff (ih ((List.prefix_append pre [op]).trans hp)) op).mpr (h pre op hp)

def renameFails : Attempt := fun e => e = .rename

theorem run_not_faithful : ¬ Faithful (run .dataStore ⟨0, some 0, false⟩ [.change (· + 1), .save renameFails]) ∧
      ¬ Saves .dataStore (run .dataStore ⟨0, some 0, false⟩ [.change (· + 1), .save renameFails]) ∧
      ¬ Faithful (run .fileIndex ⟨0, some 0, false⟩ [.change (· + 1), .save renameFails]) ∧
      ¬ Saves .fileIndex (run .fileIndex ⟨0, some 0, false⟩ [.change (· + 1), .save renameFails]) := by
  simp only [Faithful, Saves]
  decide

end Goiardi.Persistence
