import Mathlib.Data.Bool.Basic

/-! Conditions with parentheses, `AND`, `OR` and `NOT`, and how they are read if `AND` binds tighter than `OR`. -/

namespace Goiardi.Conditions

open List

inductive Tok (α : Type)
  | lpar
  | rpar
  | and
  | or
  | not
  | var (a : α)
deriving DecidableEq

inductive Level
  | primary
  | conjunction
  | disjunction

variable {α : Type}

inductive Reads (v : α → Bool) : Level → List (Tok α) → Bool → Prop
  | var (a : α) : Reads v .primary [.var a] (v a)
  | paren {ts : List (Tok α)} {b : Bool} (h : Reads v .disjunction ts b) : Reads v .primary (.lpar :: (ts ++ [.rpar])) b
  | not {ts : List (Tok α)} {b : Bool} (h : Reads v .primary ts b) : Reads v .primary (.not :: ts) (!b)
  | primary {ts : List (Tok α)} {b : Bool} (h : Reads v .primary ts b) : Reads v .conjunction ts b
  | and {ts us : List (Tok α)} {b c : Bool} (h : Reads v .conjunction ts b) (h' : Reads v .primary us c) :
      Reads v .conjunction (ts ++ .and :: us) (b && c)
  | conjunction {ts : List (Tok α)} {b : Bool} (h : Reads v .conjunction ts b) : Reads v .disjunction ts b
  | or {ts us : List (Tok α)} {b c : Bool} (h : Reads v .disjunction ts b) (h' : Reads v .conjunction us c) :
      Reads v .disjunction (ts ++ .or :: us) (b || c)

variable {v : α → Bool} {ts : List (Tok α)} {b : Bool}

lemma Reads.disjunction (h : Reads v .primary ts b) : Reads v .disjunction ts b := h.primary.conjunction

structure Frame where
  disj : Bool
  conj : Bool
  neg : Bool

def Frame.start : Frame := ⟨false, true, false⟩

def Frame.value (g : Frame) : Bool := g.disj || g.conj

def Frame.take (g : Frame) (b : Bool) : Frame := ⟨g.disj, g.conj && (g.neg ^^ b), false⟩

def run (v : α → Bool) : List (Tok α) → Frame → List Frame → Frame
  | [], g, _ => g
  | .lpar :: ts, g, fs => run v ts .start (g :: fs)
  | .rpar :: ts, g, f :: fs => run v ts (f.take g.value) fs
  | .rpar :: ts, g, [] => run v ts g []
  | .and :: ts, g, fs => run v ts g fs
  | .or :: ts, g, fs => run v ts ⟨g.value, true, false⟩ fs
  | .not :: ts, g, fs => run v ts ⟨g.disj, g.conj, !g.neg⟩ fs
  | .var a :: ts, g, fs => run v ts (g.take (v a)) fs

def eval (v : α → Bool) (ts : List (Tok α)) : Bool := (run v ts .start []).value

def Passes (v : α → Bool) (ts : List (Tok α)) (b : Bool) : Level → Prop
  | .primary => ∀ g fs rest, run v (ts ++ rest) g fs = run v rest (g.take b) fs
  | .conjunction => ∀ d c fs rest, run v (ts ++ rest) ⟨d, c, false⟩ fs = run v rest ⟨d, c && b, false⟩ fs
  | .disjunction => ∀ d fs rest, ∃ d' c', (d' || c') = (d || b) ∧
      run v (ts ++ rest) ⟨d, true, false⟩ fs = run v rest ⟨d', c', false⟩ fs

lemma Reads.passes {l : Level} (h : Reads v l ts b) : Passes v ts b l := by
  induction h with
  | var a => exact fun _ _ _ => rfl
  | @paren ts b _ ih =>
    intro g fs rest
    obtain ⟨d', c', hv, hr⟩ := ih false (g :: fs) (.rpar :: rest)
    have hvl : (⟨d', c', false⟩ : Frame).value = b := by simpa [Frame.value] using hv
    rw [cons_append, append_assoc, run, Frame.start, singleton_append, hr, run, hvl]
  | @not ts b _ ih =>
    intro g fs rest
    rw [cons_append, run, ih]
    congr 1
    cases g with
    | mk d c n => simp [Frame.take]
  | primary _ ih =>
    intro d c fs rest
    rw [ih]
    simp [Frame.take]
  | and _ _ ih ih' =>
    intro d c fs rest
    rw [append_assoc, ih, cons_append, run, ih']
    simp [Frame.take, Bool.and_assoc]
  | @conjunction ts b _ ih => exact fun d fs rest => ⟨d, b, rfl, by rw [ih, Bool.true_and]⟩
  | @or ts us b c _ _ ih ih' =>
    intro d fs rest
    obtain ⟨d', c', hv, hr⟩ := ih d fs (.or :: (us ++ rest))
    refine ⟨d || b, c, Bool.or_assoc d b c, ?_⟩
    rw [append_assoc, cons_append, hr, run, ih', Frame.value, hv, Bool.true_and]

theorem Reads.eval_eq (h : Reads v .disjunction ts b) : eval v ts = b := by
  obtain ⟨d', c', hv, hr⟩ := h.passes false [] []
  rw [append_nil] at hr
  rw [eval, Frame.start, hr, run, Frame.value, hv, Bool.false_or]

section

inductive Begins (v : α → Bool) : List (Tok α) → Bool → Bool → Prop
  | nil : Begins v [] false true
  | and {ts : List (Tok α)} {c : Bool} (h : Reads v .conjunction ts c) : Begins v (ts ++ [.and]) false c
  | orAnd {ts us : List (Tok α)} {d c : Bool} (h : Reads v .disjunction ts d) (h' : Reads v .conjunction us c) :
      Begins v (ts ++ .or :: us ++ [.and]) d c
  | or {ts : List (Tok α)} {d : Bool} (h : Reads v .disjunction ts d) : Begins v (ts ++ [.or]) d true

variable {us pre : List (Tok α)} {c d x : Bool}

lemma Begins.andThen (h : Begins v pre d c) (hp : Reads v .primary us x) :
    Begins v (pre ++ us ++ [.and]) d (c && x) := by
  cases h with
  | nil => exact .and hp.primary
  | and h => simpa using Begins.and (h.and hp)
  | orAnd h h' => simpa using Begins.orAnd h (h'.and hp)
  | or h => simpa using Begins.orAnd h hp.primary

lemma Begins.reads (h : Begins v pre d c) (hp : Reads v .primary us x) :
    Reads v .disjunction (pre ++ us) (d || (c && x)) := by
  cases h with
  | nil => exact hp.disjunction
  | and h => simpa using (h.and hp).conjunction
  | orAnd h h' => simpa using h.or (h'.and hp)
  | or h => simpa using h.or hp.primary

end

end Goiardi.Conditions
