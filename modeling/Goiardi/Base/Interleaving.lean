import Mathlib.Data.List.Basic

/-! Threads that take turns in atomic steps on one shared state, and invariants that no step of another thread
breaks. -/

namespace Goiardi

structure Pool (σ τ : Type) where
  shared : σ
  threads : List τ

namespace Pool

variable {σ τ : Type} (next : σ → τ → σ × τ)

def step (p : Pool σ τ) (i : ℕ) : Pool σ τ :=
  match p.threads[i]? with
  | none => p
  | some t => ⟨(next p.shared t).1, p.threads.set i (next p.shared t).2⟩

def run (p : Pool σ τ) (schedule : List ℕ) : Pool σ τ := schedule.foldl (step next) p

def Quiet (guard : σ → τ → τ → Prop) (p : Pool σ τ) (i : ℕ) : Prop :=
  ∀ (j : ℕ) t u, j ≠ i → p.threads[i]? = some t → p.threads[j]? = some u → guard p.shared t u

def QuietRun (guard : σ → τ → τ → Prop) : Pool σ τ → List ℕ → Prop
  | _, [] => True
  | p, i :: schedule => p.Quiet guard i ∧ QuietRun guard (p.step next i) schedule

section

variable (guard : σ → τ → τ → Prop) [∀ s t u, Decidable (guard s t u)]

instance decidableQuiet (p : Pool σ τ) (i : ℕ) : Decidable (p.Quiet guard i) :=
  decidable_of_iff
    (∀ j ∈ List.range p.threads.length, j ≠ i → ∀ t ∈ p.threads[i]?, ∀ u ∈ p.threads[j]?, guard p.shared t u)
    ⟨fun h j t u hj ht hu => h j (List.mem_range.mpr (List.getElem?_eq_some_iff.mp hu).1) hj t ht u hu,
      fun h j _ hj t ht u hu => h j t u hj ht hu⟩

instance decidableQuietRun : (p : Pool σ τ) → (schedule : List ℕ) → Decidable (QuietRun next guard p schedule)
  | _, [] => .isTrue trivial
  | p, i :: schedule =>
    have := decidableQuietRun (p.step next i) schedule
    inferInstanceAs (Decidable (p.Quiet guard i ∧ QuietRun next guard (p.step next i) schedule))

end

structure Holds (shared : σ → Prop) (each : σ → τ → Prop) (pair : τ → τ → Prop) (p : Pool σ τ) : Prop where
  shared : shared p.shared
  each : ∀ (i : ℕ) t, p.threads[i]? = some t → each p.shared t
  pair : ∀ (i j : ℕ) t u, i ≠ j → p.threads[i]? = some t → p.threads[j]? = some u → pair t u

structure Preserves (guard : σ → τ → τ → Prop) (shared : σ → Prop) (each : σ → τ → Prop) (pair : τ → τ → Prop) :
    Prop where
  symm : ∀ t u, pair t u → pair u t
  own : ∀ s t, shared s → each s t → shared (next s t).1 ∧ each (next s t).1 (next s t).2
  other : ∀ s t u, shared s → each s t → each s u → pair t u → guard s t u →
    each (next s t).1 u ∧ pair (next s t).2 u

variable {next} {guard : σ → τ → τ → Prop} {shared : σ → Prop} {each : σ → τ → Prop} {pair : τ → τ → Prop}
  {p : Pool σ τ}

lemma step_some {i : ℕ} {t : τ} (h : p.threads[i]? = some t) :
    p.step next i = ⟨(next p.shared t).1, p.threads.set i (next p.shared t).2⟩ := by
  rw [step, h]

lemma step_none {i : ℕ} (h : p.threads[i]? = none) : p.step next i = p := by
  rw [step, h]

lemma set_cases {ts : List τ} {i j : ℕ} {t u : τ} (h : (ts.set i t)[j]? = some u) :
    j = i ∧ u = t ∨ j ≠ i ∧ ts[j]? = some u := by
  rw [List.getElem?_set] at h
  split at h
  · next hij =>
    split at h
    · cases h
      exact .inl ⟨hij.symm, rfl⟩
    · cases h
  · next hij => exact .inr ⟨fun heq => hij heq.symm, h⟩

lemma Holds.step (hp : p.Holds shared each pair) (hs : Preserves next guard shared each pair) {i : ℕ}
    (hq : p.Quiet guard i) : (p.step next i).Holds shared each pair := by
  cases hi : p.threads[i]? with
  | none =>
    rw [step_none hi]
    exact hp
  | some t =>
    rw [step_some hi]
    have ht := hp.each i t hi
    obtain ⟨hsh, how⟩ := hs.own p.shared t hp.shared ht
    have ho := fun j u (hj : j ≠ i) (hu : p.threads[j]? = some u) =>
      hs.other p.shared t u hp.shared ht (hp.each j u hu) (hp.pair i j t u hj.symm hi hu) (hq j t u hj hi hu)
    refine ⟨hsh, fun j u hu => ?_, fun j k u v hjk hu hv => ?_⟩
    · rcases set_cases hu with ⟨-, rfl⟩ | ⟨hj, hu⟩
      · exact how
      · exact (ho j u hj hu).1
    · rcases set_cases hu with ⟨hj, rfl⟩ | ⟨hj, hu'⟩ <;> rcases set_cases hv with ⟨hk, rfl⟩ | ⟨hk, hv'⟩
      · exact absurd (hj.trans hk.symm) hjk
      · exact (ho k v hk hv').2
      · exact hs.symm _ _ (ho j u hj hu').2
      · exact hp.pair j k u v hjk hu' hv'

theorem Holds.run (hp : p.Holds shared each pair) (hs : Preserves next guard shared each pair) (schedule : List ℕ)
    (hq : p.QuietRun next guard schedule) : (p.run next schedule).Holds shared each pair := by
  induction schedule generalizing p with
  | nil => exact hp
  | cons i schedule ih => exact ih (hp.step hs hq.1) hq.2

section

def Any (P : τ → Prop) (p : Pool σ τ) : Prop := ∃ t ∈ p.threads, P t

variable {P : τ → Prop} {i : ℕ} {t : τ}

variable (next) in
lemma Any.step (h : p.Any P) (hi : p.threads[i]? = some t) : P t ∨ (p.step next i).Any P := by
  obtain ⟨u, hu, hP⟩ := h
  obtain ⟨j, hj⟩ := List.getElem?_of_mem hu
  by_cases hij : i = j
  · subst hij
    rw [hi] at hj
    cases hj
    exact .inl hP
  · refine .inr ⟨u, List.mem_of_getElem? (i := j) ?_, hP⟩
    rw [step_some hi, List.getElem?_set_ne hij, hj]

lemma any_step_self (hi : p.threads[i]? = some t) (h : P (next p.shared t).2) : (p.step next i).Any P := by
  refine ⟨_, List.mem_of_getElem? (i := i) ?_, h⟩
  rw [step_some hi, List.getElem?_set_self (List.getElem?_eq_some_iff.mp hi).1]

lemma length_threads_step (p : Pool σ τ) (i : ℕ) : (p.step next i).threads.length = p.threads.length := by
  unfold step
  split
  · rfl
  · exact List.length_set

end

end Pool

end Goiardi
