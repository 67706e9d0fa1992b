import Mathlib.Data.Finset.Basic

/-! Programs with state and errors: how they run part by part, and properties of the state that they keep, whether they
answer or fail. -/

namespace Goiardi

variable {ε σ α β : Type} {I : σ → Prop}

section

variable {x : EStateM ε σ α} {f : α → EStateM ε σ β} {s s' : σ} {a : α} {b : β} {e : ε}

lemma run_bind_ok (h : x s = .ok a s') : (x >>= f) s = f a s' := by
  change EStateM.bind x f s = f a s'
  rw [EStateM.bind, h]

lemma run_bind_error (h : x s = .error e s') : (x >>= f) s = .error e s' := by
  change EStateM.bind x f s = .error e s'
  rw [EStateM.bind, h]

lemma run_bind_inv (h : (x >>= f) s = .ok b s') : ∃ a t, x s = .ok a t ∧ f a t = .ok b s' := by
  cases hx : x s with
  | ok a t => exact ⟨a, t, rfl, (run_bind_ok hx).symm.trans h⟩
  | error e t =>
    rw [run_bind_error hx] at h
    cases h

def Looks (x : EStateM ε σ α) (s : σ) (o : Option α) (e : ε) : Prop := x s = o.elim (.error e s) fun a => .ok a s

namespace Looks

variable {o : Option α}

lemma found (h : Looks x s o e) (ho : o = some a) : x s = .ok a s := by
  subst ho
  exact h

lemma missing (h : Looks x s o e) (ho : o = none) : x s = .error e s := by
  subst ho
  exact h

lemma bind_inv (hx : Looks x s o e) (h : (x >>= f) s = .ok b s') : ∃ a, o = some a ∧ f a s = .ok b s' := by
  cases o with
  | none =>
    rw [run_bind_error (hx.missing rfl)] at h
    cases h
  | some a =>
    rw [run_bind_ok (hx.found rfl)] at h
    exact ⟨a, rfl, h⟩

end Looks

end

/-- The program keeps `I`, and its answers have `Q`. -/
def Keeps (I : σ → Prop) (x : EStateM ε σ α) (Q : α → Prop) : Prop :=
  ∀ s, I s →
    match x s with
    | .ok a s' => I s' ∧ Q a
    | .error _ s' => I s'

namespace Keeps

variable {Q : α → Prop} {x : EStateM ε σ α}

lemma pure {a : α} (h : Q a) : Keeps I (Pure.pure a : EStateM ε σ α) Q := fun _ hs => ⟨hs, h⟩

lemma throw (e : ε) : Keeps I (MonadExcept.throw e : EStateM ε σ α) Q := fun _ hs => hs

lemma get : Keeps I (MonadState.get : EStateM ε σ σ) I := fun _ hs => ⟨hs, hs⟩

lemma modify {g : σ → σ} (h : ∀ s, I s → I (g s)) : Keeps I (modifyGet fun s => (PUnit.unit, g s) : EStateM ε σ PUnit) fun _ => True :=
  fun s hs => ⟨h s hs, trivial⟩

lemma bind {f : α → EStateM ε σ β} {R : β → Prop} (hx : Keeps I x Q)
    (hf : ∀ a, Q a → Keeps I (f a) R) : Keeps I (x >>= f) R := by
  intro s hs
  have h := hx s hs
  change match EStateM.bind x f s with | .ok a s' => I s' ∧ R a | .error _ s' => I s'
  rw [EStateM.bind]
  cases hr : x s with
  | ok a s' =>
    rw [hr] at h
    exact hf a h.2 s' h.1
  | error e s' =>
    rw [hr] at h
    exact h

lemma of_looks {o : σ → Option α} {e : ε} (h : ∀ s, Looks x s (o s) e)
    (hQ : ∀ s, I s → ∀ a, o s = some a → Q a) : Keeps I x Q := by
  intro s hs
  cases ho : o s with
  | none =>
    rw [(h s).missing ho]
    exact hs
  | some a =>
    rw [(h s).found ho]
    exact ⟨hs, hQ s hs a ho⟩

lemma mono {Q R : α → Prop} (hx : Keeps I x Q) (h : ∀ a, Q a → R a) : Keeps I x R := by
  intro s hs
  have hk := hx s hs
  cases hr : x s with
  | ok a s' =>
    rw [hr] at hk
    exact ⟨hk.1, h a hk.2⟩
  | error e s' =>
    rw [hr] at hk
    exact hk

end Keeps

/-- From a state with `I` the program ends in a state with `J`, whether it answers or fails. -/
def Leads (I J : σ → Prop) (x : EStateM ε σ α) : Prop :=
  ∀ s, I s →
    match x s with
    | .ok _ s' | .error _ s' => J s'

namespace Leads

variable {J : σ → Prop}

lemma after_keeps {x : EStateM ε σ α} {f : α → EStateM ε σ β} {Q : α → Prop} (hx : Keeps I x Q)
    (hI : ∀ s, I s → J s) (hf : ∀ a, Q a → Leads I J (f a)) : Leads I J (x >>= f) := by
  intro s hs
  have h := hx s hs
  change match EStateM.bind x f s with | .ok _ s' | .error _ s' => J s'
  rw [EStateM.bind]
  cases hr : x s with
  | ok a s' =>
    rw [hr] at h
    exact hf a h.2 s' h.1
  | error e s' =>
    rw [hr] at h
    exact hI s' h

lemma keeps {x : EStateM ε σ α} (hx : Leads I I x) : Keeps I x fun _ => True := by
  intro s hs
  have h := hx s hs
  cases hr : x s with
  | ok a s' =>
    rw [hr] at h
    exact ⟨h, trivial⟩
  | error e s' =>
    rw [hr] at h
    exact h

lemma bind_pure {x : EStateM ε σ α} (hx : Leads I J x) (g : α → β) : Leads I J (x >>= fun a => Pure.pure (g a)) := by
  intro s hs
  have h := hx s hs
  change match EStateM.bind x (fun a => Pure.pure (g a)) s with | .ok _ s' | .error _ s' => J s'
  rw [EStateM.bind]
  cases hr : x s with
  | ok a s' =>
    rw [hr] at h
    exact h
  | error e s' =>
    rw [hr] at h
    exact h

end Leads

def lift : Except ε α → EStateM ε σ α
  | .ok a => pure a
  | .error e => throw e

def settle (s : σ) : Except ε σ → EStateM.Result ε σ Unit
  | .ok s' => .ok () s'
  | .error e => .error e s

def FailsClean (x : EStateM ε σ α) (s : σ) : Prop := ∀ e s', x s = .error e s' → s' = s

lemma FailsClean.of_settle {s : σ} {x : EStateM ε σ Unit} {y : Except ε σ} (hx : x s = settle s y) :
    FailsClean x s := by
  intro e s' h
  rw [hx] at h
  cases y with
  | ok _ => cases h
  | error _ =>
    cases h
    rfl

lemma lift_bind_eq_settle {s : σ} {x : Except ε α} {f : α → EStateM ε σ Unit} {g : α → Except ε σ}
    (h : ∀ a, x = .ok a → f a s = settle s (g a)) : (lift x >>= f) s = settle s (x >>= g) := by
  cases x with
  | ok a => exact h a rfl
  | error e => rfl

lemma lift_mapError_bind_eq_settle {ε' : Type} {w : ε' → ε} {s : σ} {x : Except ε' α} {f : α → EStateM ε σ Unit}
    {g : α → Except ε' σ} (h : ∀ a, x = .ok a → f a s = settle s ((g a).mapError w)) :
    (lift (x.mapError w) >>= f) s = settle s ((x >>= g).mapError w) := by
  cases x with
  | ok a => exact h a rfl
  | error e => rfl

end Goiardi
