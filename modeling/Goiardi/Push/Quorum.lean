import Goiardi.Push.Jobs

/-! The quorum of a job. -/

namespace Goiardi.Push

open List Text

structure Qerror where
  msg : Text
  status : Text := "job_failed"

/-- How `strconv` reads and `fmt` writes a number with a fraction. -/
structure Floats where
  parseFloat : Text → Except Text ℚ
  format : ℚ → Text

/-- What stands before the sign in a match of `^(\d+\.?\d?)%$`. -/
def percentage (quorum : Text) : Option ℚ :=
  let digits := quorum.dropLast.takeWhile Char.isDigit
  let fraction := quorum.dropLast.dropWhile Char.isDigit
  if quorum.getLast? = some '%' ∧ digits ≠ [] ∧ fraction.length ≤ 2 ∧ (fraction.take 1).all (· = '.') ∧
      (fraction.drop 1).all Char.isDigit then some (digitsValue digits + digitsValue (fraction.drop 1) / 10)
  else none

-- a conversion to `int` drops the fraction
def truncate (x : ℚ) : ℤ := if 0 ≤ x then ⌊x⌋ else ⌈x⌉

def getQuorum (floats : Floats) (quorum : Text) (numNodes : ℕ) : Except Qerror ℤ :=
  if numNodes = 0 then .error { msg := "There's no nodes to make a quorum", status := quorumFailed }
  else
    match percentage quorum with
    | some q => .ok ⌈q / 100 * numNodes⌉
    | none =>
      match floats.parseFloat quorum with
      | .error e => .error { msg := e }
      | .ok qnum =>
        if numNodes < qnum then .error
          { msg := floats.format qnum ++ " nodes were required for the quorum, but only " ++ formatNat numNodes ++
              " matched the criteria given"
            status := quorumFailed }
        else .ok (truncate qnum)

variable (floats : Floats) (up : Text → Bool) (s : Store)

/-- What `startJobs` should ask for: a share or a number of the nodes, which so many different nodes have to meet. -/
def ProperQuorum : Prop :=
  ∀ q, getQuorum floats s.job.quorum s.job.nodeNames.length = .ok q →
    (0 ≤ q ∧ q ≤ s.job.nodeNames.length) ∧
      (match percentage s.job.quorum with
      | some p => p ≤ 100 → q = ⌈p * s.job.nodeNames.length / 100⌉
      | none => ∀ x, floats.parseFloat s.job.quorum = .ok x → q = ⌈x⌉) ∧
      ∀ now, (s.startJobs now up (.ok q) (.ok ())).1 = none → q ≤ (s.job.nodeNames.filter up).dedup.length

def Distinct (r : ℚ) : Prop :=
  r ≤ (s.job.nodeNames.filter up).length → r ≤ (s.job.nodeNames.filter up).dedup.length

/-- No more than all nodes and no part of a node is asked for, and repeated names do not make up the number. -/
def Sensible : Prop :=
  match percentage s.job.quorum with
  | some p => p ≤ 100 ∧ Distinct up s (p / 100 * s.job.nodeNames.length)
  | none => ∀ x, floats.parseFloat s.job.quorum = .ok x → x ≤ s.job.nodeNames.length →
    (-1 < x ∧ (0 < x → ⌊x⌋ = x)) ∧ Distinct up s x

variable {floats up s}

lemma percentage_nonneg {quorum : Text} {p : ℚ} (h : percentage quorum = some p) : 0 ≤ p := by
  unfold percentage at h
  dsimp only at h
  split_ifs at h
  exact Option.some.inj h ▸ by positivity

lemma started_iff (r : ℚ) : (∀ now, (s.startJobs now up (.ok ⌈r⌉) (.ok ())).1 = none →
    ⌈r⌉ ≤ (s.job.nodeNames.filter up).dedup.length) ↔ Distinct up s r := by
  have hs (now : ℤ) : (s.startJobs now up (.ok ⌈r⌉) (.ok ())).1 = none ↔
      ⌈r⌉ ≤ (s.job.nodeNames.filter up).length := by
    rw [Store.startJobs, ← not_lt]
    split <;> simp [*]
  simp only [hs, forall_const, Int.ceil_le, Int.cast_natCast, Distinct]

lemma truncate_eq_ceil_iff {x : ℚ} : truncate x = ⌈x⌉ ↔ (0 < x → ⌊x⌋ = x) := by
  unfold truncate
  split
  · next hx =>
    constructor
    · intro he _
      exact le_antisymm (Int.floor_le x) (he ▸ Int.le_ceil x)
    · intro hi
      rcases hx.eq_or_lt with rfl | hp
      · rfl
      · rw [← hi hp, Int.floor_intCast, Int.ceil_intCast]
  · next hx => exact iff_of_true rfl fun hp => absurd hp.le hx

lemma getQuorum_percent {quorum : Text} {p : ℚ} {n : ℕ} (h : percentage quorum = some p) :
    getQuorum floats quorum (n + 1) = .ok ⌈p / 100 * (n + 1 : ℕ)⌉ := by
  rw [getQuorum, if_neg n.succ_ne_zero, h]

theorem properQuorum_iff (floats : Floats) (up : Text → Bool) (s : Store) :
    ProperQuorum floats up s ↔ s.job.nodeNames = [] ∨ Sensible floats up s := by
  by_cases hn : s.job.nodeNames = []
  · simp [ProperQuorum, getQuorum, hn]
  have hl : s.job.nodeNames.length ≠ 0 := by simpa using hn
  have hpos : (0 : ℚ) < s.job.nodeNames.length := by positivity
  rw [or_iff_right hn, ProperQuorum, Sensible, getQuorum, if_neg hl]
  cases hp : percentage s.job.quorum with
  | some p =>
    have hb : ⌈p / 100 * s.job.nodeNames.length⌉ ≤ s.job.nodeNames.length ↔ p ≤ 100 := by
      rw [Int.ceil_le, Int.cast_natCast, mul_le_iff_le_one_left hpos, div_le_one (by norm_num)]
    have h0 : 0 ≤ ⌈p / 100 * s.job.nodeNames.length⌉ := by
      have := percentage_nonneg hp
      exact Int.ceil_nonneg (by positivity)
    simp only [Except.ok.injEq, forall_eq', started_iff, hb, h0, mul_div_right_comm p, implies_true, true_and]
  | none =>
    cases hx : floats.parseFloat s.job.quorum with
    | error e => simp
    | ok x =>
      by_cases hlt : (s.job.nodeNames.length : ℚ) < x
      · simp [hlt]
      have hc : 0 ≤ ⌈x⌉ ↔ -1 < x := by
        rw [Int.le_ceil_iff]
        norm_num
      have hb : ⌈x⌉ ≤ s.job.nodeNames.length := Int.ceil_le.mpr (by simpa using hlt)
      simp only [if_neg hlt, Except.ok.injEq, forall_eq', not_lt.mp hlt, forall_const, ← truncate_eq_ceil_iff]
      by_cases ht : truncate x = ⌈x⌉
      · simp only [ht, started_iff, hc, hb, and_true, true_and]
      · simp only [ht, and_false, false_and]

theorem not_properQuorum : ¬ ProperQuorum ⟨fun _ => .error [], fun _ => []⟩ (fun _ => true)
    (.empty (submit 0 "1b4e" "reboot" 60 "200%" ["web"])) := by
  intro h
  have hp : percentage "200%" = some 200 := by decide +kernel
  have hc : ⌈(200 : ℚ) / 100 * (0 + 1 : ℕ)⌉ = 2 := by norm_num
  exact absurd (h 2 ((getQuorum_percent hp).trans (congrArg Except.ok hc))).1.2 (by decide)

end Goiardi.Push
