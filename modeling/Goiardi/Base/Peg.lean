import Goiardi.Base.Text

/-! Parsing expression grammars over characters, with captured texts and actions.

`parse` runs an expression with a bound on its depth. `Derives` forgets the ordering of alternatives and the
lookahead: every successful parse is a derivation, which is all a reader of the tokens needs. -/

namespace Goiardi.Peg

open List

inductive Expr (N A : Type)
  | empty
  | char (p : Char → Bool)
  | rule (n : N)
  | seq (e f : Expr N A)
  | alt (e f : Expr N A)
  | star (e : Expr N A)
  | not (e : Expr N A)
  | capture (e : Expr N A)
  | action (a : A)

inductive Token (A : Type)
  | text (t : Text)
  | action (a : A)
deriving DecidableEq, Repr

namespace Expr

variable {N A : Type}

def seqs : List (Expr N A) → Expr N A
  | [] => empty
  | [e] => e
  | e :: es => seq e (seqs es)

def alts (e : Expr N A) : List (Expr N A) → Expr N A
  | [] => e
  | f :: es => alt e (alts f es)

def plus (e : Expr N A) : Expr N A := seq e (star e)

def opt (e : Expr N A) : Expr N A := alt e empty

def lit : Text → Expr N A
  | [] => empty
  | [c] => char (· = c)
  | c :: t => seq (char (· = c)) (lit t)

end Expr

section

variable {N A : Type} (g : N → Expr N A)

/-- The tokens and the unread text of a match. `none` is an expression that needs more depth than it was given,
`some none` one that does not match. A repetition of an expression that matches nothing has no result at any depth. -/
def parse : ℕ → Expr N A → Text → Option (Option (List (Token A) × Text))
  | 0, _, _ => none
  | _ + 1, .empty, t => some (some ([], t))
  | _ + 1, .char _, [] => some none
  | _ + 1, .char p, c :: t => some (if p c then some ([], t) else none)
  | n + 1, .rule r, t => parse n (g r) t
  | n + 1, .seq e f, t =>
    match parse n e t with
    | some (some (ts, t')) =>
      match parse n f t' with
      | some (some (us, t'')) => some (some (ts ++ us, t''))
      | r => r
    | r => r
  | n + 1, .alt e f, t =>
    match parse n e t with
    | some none => parse n f t
    | r => r
  | n + 1, .star e, t =>
    match parse n e t with
    | some (some (ts, t')) =>
      match parse n (.star e) t' with
      | some (some (us, t'')) => some (some (ts ++ us, t''))
      | r => r
    | some none => some (some ([], t))
    | none => none
  | n + 1, .not e, t =>
    match parse n e t with
    | some (some _) => some none
    | some none => some (some ([], t))
    | none => none
  | n + 1, .capture e, t =>
    match parse n e t with
    | some (some (ts, t')) => some (some (ts ++ [.text (t.take (t.length - t'.length))], t'))
    | r => r
  | _ + 1, .action a, t => some (some ([.action a], t))

inductive Derives : Expr N A → Text → List (Token A) → Text → Prop
  | empty (t : Text) : Derives .empty t [] t
  | char {p : Char → Bool} {c : Char} (t : Text) (h : p c = true) : Derives (.char p) (c :: t) [] t
  | rule {n : N} {t t' : Text} {ts : List (Token A)} (h : Derives (g n) t ts t') : Derives (.rule n) t ts t'
  | seq {e f : Expr N A} {t t' t'' : Text} {ts us : List (Token A)} (h : Derives e t ts t')
      (h' : Derives f t' us t'') : Derives (.seq e f) t (ts ++ us) t''
  | left {e f : Expr N A} {t t' : Text} {ts : List (Token A)} (h : Derives e t ts t') : Derives (.alt e f) t ts t'
  | right {e f : Expr N A} {t t' : Text} {ts : List (Token A)} (h : Derives f t ts t') : Derives (.alt e f) t ts t'
  | stop {e : Expr N A} (t : Text) : Derives (.star e) t [] t
  | more {e : Expr N A} {t t' t'' : Text} {ts us : List (Token A)} (h : Derives e t ts t')
      (h' : Derives (.star e) t' us t'') : Derives (.star e) t (ts ++ us) t''
  | not {e : Expr N A} (t : Text) : Derives (.not e) t [] t
  | capture {e : Expr N A} {m t' : Text} {ts : List (Token A)} (h : Derives e (m ++ t') ts t') :
      Derives (.capture e) (m ++ t') (ts ++ [.text m]) t'
  | action {a : A} (t : Text) : Derives (.action a) t [.action a] t

end

section

variable {N A : Type} {g : N → Expr N A} {e f : Expr N A} {t t' : Text} {ts : List (Token A)}

lemma Derives.isSuffix (h : Derives g e t ts t') : t' <:+ t := by
  induction h with
  | empty | stop | not | action => exact suffix_refl _
  | char => exact suffix_cons _ _
  | rule _ ih | left _ ih | right _ ih => exact ih
  | seq _ _ ih ih' | more _ _ ih ih' => exact ih'.trans ih
  | capture => exact suffix_append _ _

lemma Derives.length_le (h : Derives g e t ts t') : t'.length ≤ t.length := h.isSuffix.length_le

theorem derives_of_parse : ∀ {n : ℕ} {e : Expr N A} {t t' : Text} {ts : List (Token A)},
    parse g n e t = some (some (ts, t')) → Derives g e t ts t' := by
  intro n
  induction n with
  | zero => intro e t t' ts h; simp [parse] at h
  | succ n ih =>
    intro e t t' ts h
    cases e with
    | empty =>
      simp only [parse, Option.some.injEq, Prod.mk.injEq] at h
      obtain ⟨rfl, rfl⟩ := h
      exact .empty _
    | char p =>
      cases t with
      | nil => simp [parse] at h
      | cons c t =>
        simp only [parse, Option.some.injEq, Option.ite_none_right_eq_some, Prod.mk.injEq] at h
        obtain ⟨hp, rfl, rfl⟩ := h
        exact .char _ hp
    | rule r => exact .rule (ih (by simpa only [parse] using h))
    | seq e f =>
      simp only [parse] at h
      split at h
      · next he =>
        split at h
        · next hf =>
          simp only [Option.some.injEq, Prod.mk.injEq] at h
          obtain ⟨rfl, rfl⟩ := h
          exact .seq (ih he) (ih hf)
        · next hf => exact absurd h (hf _ _)
      · next he => exact absurd h (he _ _)
    | alt e f =>
      simp only [parse] at h
      split at h
      · exact .right (ih h)
      · exact .left (ih h)
    | star e =>
      simp only [parse] at h
      split at h
      · next he =>
        split at h
        · next hf =>
          simp only [Option.some.injEq, Prod.mk.injEq] at h
          obtain ⟨rfl, rfl⟩ := h
          exact .more (ih he) (ih hf)
        · next hf => exact absurd h (hf _ _)
      · simp only [Option.some.injEq, Prod.mk.injEq] at h
        obtain ⟨rfl, rfl⟩ := h
        exact .stop _
      · simp at h
    | not e =>
      simp only [parse] at h
      split at h
      · simp at h
      · simp only [Option.some.injEq, Prod.mk.injEq] at h
        obtain ⟨rfl, rfl⟩ := h
        exact .not _
      · simp at h
    | capture e =>
      simp only [parse] at h
      split at h
      · next us u he =>
        simp only [Option.some.injEq, Prod.mk.injEq] at h
        obtain ⟨rfl, rfl⟩ := h
        obtain ⟨m, rfl⟩ := (ih he).isSuffix
        have hm : (m ++ u).take ((m ++ u).length - u.length) = m := by simp
        rw [hm]
        exact .capture (ih he)
      · next he => exact absurd h (he _ _)
    | action a =>
      simp only [parse, Option.some.injEq, Prod.mk.injEq] at h
      obtain ⟨rfl, rfl⟩ := h
      exact .action _

lemma derives_char {p : Char → Bool} : Derives g (.char p) t ts t' ↔ ts = [] ∧ ∃ c, p c = true ∧ t = c :: t' :=
  ⟨fun h => by cases h with | char _ h => exact ⟨rfl, _, h, rfl⟩, by rintro ⟨rfl, c, h, rfl⟩; exact .char _ h⟩

end

section

variable {N A : Type} (s : N → Bool) (r : N → List (Token A) → Prop)

def Expr.consumes : Expr N A → Bool
  | empty | star _ | not _ | action _ => false
  | char _ => true
  | rule n => s n
  | seq e f => e.consumes || f.consumes
  | alt e f => e.consumes && f.consumes
  | capture e => e.consumes

def Expr.Gives : Expr N A → List (Token A) → Prop
  | empty, ts | char _, ts | not _, ts => ts = []
  | rule n, ts => r n ts
  | seq e f, ts => ∃ us, e.Gives us ∧ ∃ vs, f.Gives vs ∧ ts = us ++ vs
  | alt e f, ts => e.Gives ts ∨ f.Gives ts
  | star e, ts => ∃ tss : List (List (Token A)), (∀ us ∈ tss, e.Gives us) ∧ ts = tss.flatten
  | capture e, ts => ∃ us, e.Gives us ∧ ∃ m, (e.consumes s = true → m ≠ []) ∧ ts = us ++ [.text m]
  | action a, ts => ts = [.action a]

variable {s r} {g : N → Expr N A} {e : Expr N A} {t t' : Text} {ts : List (Token A)}

lemma Derives.length_lt (hs : ∀ n, s n = true → (g n).consumes s = true) (h : Derives g e t ts t')
    (he : e.consumes s = true) : t'.length < t.length := by
  induction h with
  | empty | stop | more | not | action => cases he
  | char => exact Nat.lt_succ_self _
  | rule _ ih => exact ih (hs _ he)
  | seq h h' ih ih' =>
    have hle := h.length_le
    have hl' := h'.length_le
    rcases Bool.or_eq_true_iff.mp he with he | he
    · have := ih he
      omega
    · have := ih' he
      omega
  | left _ ih => exact ih (Bool.and_eq_true_iff.mp he).1
  | right _ ih => exact ih (Bool.and_eq_true_iff.mp he).2
  | capture _ ih => exact ih he

theorem Derives.gives (hs : ∀ n, s n = true → (g n).consumes s = true) (hr : ∀ n ts, (g n).Gives s r ts → r n ts)
    (h : Derives g e t ts t') : e.Gives s r ts := by
  induction h with
  | empty | char | not | action => rfl
  | rule _ ih => exact hr _ _ ih
  | seq _ _ ih ih' => exact ⟨_, ih, _, ih', rfl⟩
  | left _ ih => exact .inl ih
  | right _ ih => exact .inr ih
  | stop => exact ⟨[], by simp, rfl⟩
  | more _ _ ih ih' =>
    obtain ⟨tss, ht, rfl⟩ := ih'
    exact ⟨_ :: tss, by simpa using ⟨ih, ht⟩, rfl⟩
  | @capture e m t' ts h ih =>
    refine ⟨ts, ih, m, fun he => ?_, rfl⟩
    rintro rfl
    exact absurd (h.length_lt hs he) (lt_irrefl _)

lemma gives_star_silent (h : (Expr.star e).Gives s r ts) (he : ∀ us, e.Gives s r us → us = []) : ts = [] := by
  obtain ⟨tss, ht, rfl⟩ := h
  exact flatten_eq_nil_iff.mpr fun us hus => he us (ht us hus)

lemma gives_plus_silent (h : (Expr.plus e).Gives s r ts) (he : ∀ us, e.Gives s r us → us = []) : ts = [] := by
  obtain ⟨us, hus, vs, hvs, rfl⟩ := h
  rw [he us hus, gives_star_silent hvs he, append_nil]

@[simp] lemma gives_lit (w : Text) : (Expr.lit w).Gives s r ts ↔ ts = [] := by
  induction w generalizing ts with
  | nil => rfl
  | cons c w ih =>
    cases w with
    | nil => rfl
    | cons d w => simp [Expr.lit, Expr.Gives, ih]

end

end Goiardi.Peg
