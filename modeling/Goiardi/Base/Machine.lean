import Mathlib.Tactic

/-! Deterministic machines whose steps either finish with a result or lead to a next configuration. -/

namespace Goiardi.Machine

variable {C R : Type} {step : C → R ⊕ C} {c d : C} {r : R}

def run (step : C → R ⊕ C) : ℕ → C → Option R
  | 0, _ => none
  | n + 1, c =>
    match step c with
    | .inl r => some r
    | .inr d => run step n d

def Reaches (step : C → R ⊕ C) : C → C → Prop :=
  Relation.ReflTransGen (fun c d => step c = .inr d)

lemma Reaches.refl : Reaches step c c := Relation.ReflTransGen.refl

lemma Reaches.single (h : step c = .inr d) : Reaches step c d := Relation.ReflTransGen.single h

variable {e : C} {P : C → Prop} {n : ℕ}

lemma Reaches.trans (h : Reaches step c d) (h' : Reaches step d e) : Reaches step c e :=
  Relation.ReflTransGen.trans h h'

lemma Reaches.head (h : step c = .inr d) (h' : Reaches step d e) : Reaches step c e :=
  Relation.ReflTransGen.head h h'

lemma Reaches.invariant (hs : ∀ c d, P c → step c = .inr d → P d) (h : Reaches step c d) (hc : P c) : P d := by
  induction h with
  | refl => exact hc
  | tail _ he ih => exact hs _ _ ih he

lemma run_of_reaches (h : Reaches step c d) (hr : step d = .inl r) : ∃ n, run step n c = some r := by
  induction h using Relation.ReflTransGen.head_induction_on with
  | refl => exact ⟨1, by simp [run, hr]⟩
  | head he _ ih =>
    obtain ⟨n, hn⟩ := ih
    exact ⟨n + 1, by simpa [run, he] using hn⟩

lemma reaches_of_run (h : run step n c = some r) : ∃ d, Reaches step c d ∧ step d = .inl r := by
  induction n generalizing c with
  | zero => simp [run] at h
  | succ n ih =>
    cases he : step c with
    | inl q =>
      simp only [run, he, Option.some.injEq] at h
      exact ⟨c, .refl, h ▸ he⟩
    | inr e =>
      simp only [run, he] at h
      obtain ⟨d, hd, hr⟩ := ih h
      exact ⟨d, hd.head he, hr⟩

lemma run_post {Q : R → Prop} (hs : ∀ c d, P c → step c = .inr d → P d)
    (hf : ∀ c r, P c → step c = .inl r → Q r) (hc : P c) (h : run step n c = some r) : Q r := by
  obtain ⟨d, hd, hr⟩ := reaches_of_run h
  exact hf d r (hd.invariant hs hc) hr

lemma run_eq_none (hs : ∀ c, P c → ∃ d, step c = .inr d ∧ P d) (hc : P c) (n : ℕ) : run step n c = none := by
  induction n generalizing c with
  | zero => rfl
  | succ n ih =>
    obtain ⟨d, hd, hP⟩ := hs c hc
    rw [run, hd]
    exact ih hP

lemma run_succ_of_some (h : run step n c = some r) : run step (n + 1) c = some r := by
  induction n generalizing c with
  | zero => simp [run] at h
  | succ n ih =>
    cases he : step c with
    | inl q => simpa only [run, he] using h
    | inr e =>
      simp only [run, he] at h
      rw [run, he]
      exact ih h

lemma run_mono {m n : ℕ} (hmn : m ≤ n) (h : run step m c = some r) : run step n c = some r := by
  induction hmn with
  | refl => exact h
  | step _ ih => exact run_succ_of_some ih

lemma run_unique {m n : ℕ} {q : R} (h : run step m c = some r) (h' : run step n c = some q) : r = q := by
  have hm := run_mono (Nat.le_max_left m n) h
  have hn := run_mono (Nat.le_max_right m n) h'
  exact Option.some.inj (hm.symm.trans hn)

def trace (step : C → R ⊕ C) : ℕ → C → List C
  | 0, c => [c]
  | n + 1, c =>
    match step c with
    | .inl _ => [c]
    | .inr d => c :: trace step n d

lemma mem_trace_self (n : ℕ) (c : C) : c ∈ trace step n c := by
  cases n with
  | zero => simp [trace]
  | succ n => cases h : step c <;> simp [trace, h]

lemma mem_trace_of_reaches (hr : run step n c = some r) (h : Reaches step c d) : d ∈ trace step n c := by
  induction n generalizing c with
  | zero => simp [run] at hr
  | succ n ih =>
    rcases Relation.ReflTransGen.cases_head h with rfl | ⟨e, he, hed⟩
    · exact mem_trace_self _ _
    · simp only [run, he] at hr
      simp only [trace, he, List.mem_cons]
      exact Or.inr (ih hr hed)

end Goiardi.Machine
