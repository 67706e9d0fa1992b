import Goiardi.Base.Interleaving

/-! Requests that read a shared value once and then store values that they have computed from it.

Each request changes one key of the value. When no request reads while another one still has something to store, the
changes of all of them are in the shared value; nothing keeps a request from storing over what it has not read. -/

namespace Goiardi

open List

structure Update (σ κ : Type) where
  key : κ
  writes : σ → List σ
  succeeds : σ → Bool

namespace Update

variable {σ κ ν : Type}

def outcome (u : Update σ κ) (v : σ) : σ := (u.writes v).getLast?.getD v

inductive Stage (σ κ : Type)
  | idle (u : Update σ κ)
  | loaded (u : Update σ κ) (v : σ)
  | storing (u : Update σ κ) (v : σ) (ws : List σ)

def Stage.update : Stage σ κ → Update σ κ
  | .idle u | .loaded u _ | .storing u _ _ => u

def Stage.isIdle : Stage σ κ → Bool
  | .idle _ => true
  | .loaded _ _ | .storing _ _ _ => false

def Stage.busy : Stage σ κ → Bool
  | .idle _ => false
  | .loaded _ _ => true
  | .storing _ _ ws => !ws.isEmpty

def Stage.succeeded : Stage σ κ → Bool
  | .storing u v [] => u.succeeds v
  | _ => false

-- the step from `loaded` to `storing` changes the private copy only
def advance (s : σ) : Stage σ κ → σ × Stage σ κ
  | .idle u => (s, .loaded u s)
  | .loaded u v => (s, .storing u v (u.writes v))
  | .storing u v [] => (s, .storing u v [])
  | .storing u v (w :: ws) => (w, .storing u v ws)

def Apart (_ : σ) (t u : Stage σ κ) : Prop := t.isIdle = true → u.busy = false

instance (s : σ) (t u : Stage σ κ) : Decidable (Apart s t u) :=
  inferInstanceAs (Decidable (t.isIdle = true → u.busy = false))

variable (look : σ → κ → Option ν)

def Local (u : Update σ κ) : Prop := ∀ s, ∀ w ∈ u.writes s, ∀ k, k ≠ u.key → look w k = look s k

def Fit (start s : σ) : Stage σ κ → Prop
  | .idle u => u.Local look ∧ look s u.key = look start u.key
  | .loaded u v => u.Local look ∧ look s u.key = look start u.key ∧ v = s
  | .storing u v ws =>
    u.Local look ∧ look v u.key = look start u.key ∧ (∀ w ∈ ws, ∀ k, k ≠ u.key → look w k = look s k) ∧
      look (ws.getLast?.getD s) u.key = look (u.outcome v) u.key

def Distinct (t u : Stage σ κ) : Prop := t.update.key ≠ u.update.key ∧ ¬ (t.busy = true ∧ u.busy = true)

variable {look}

lemma Fit.other {start s w : σ} {t : Stage σ κ} (ht : Fit look start s t) (hb : t.busy = false)
    (hw : look w t.update.key = look s t.update.key) : Fit look start w t := by
  cases t with
  | idle u => exact ⟨ht.1, hw.trans ht.2⟩
  | loaded u v => cases hb
  | storing u v ws =>
    obtain ⟨hl, hv, -, hls⟩ := ht
    obtain rfl : ws = [] := by simpa [Stage.busy] using hb
    exact ⟨hl, hv, by simp, hw.trans hls⟩

lemma Fit.own {start s : σ} {t : Stage σ κ} (ht : Fit look start s t) :
    Fit look start (advance s t).1 (advance s t).2 := by
  match t, ht with
  | .idle u, ⟨hl, hs⟩ => exact ⟨hl, hs, rfl⟩
  | .loaded u v, ⟨hl, hs, hv⟩ =>
    subst hv
    exact ⟨hl, hs, hl v, rfl⟩
  | .storing u v [], ht => exact ht
  | .storing u v (w :: ws), ⟨hl, hv, hws, hls⟩ =>
    refine ⟨hl, hv, fun w' hw' k hk => ?_, ?_⟩
    · exact (hws w' (.tail _ hw') k hk).trans (hws w (.head _) k hk).symm
    · rw [List.getLast?_cons] at hls
      exact hls

lemma advance_update (s : σ) (t : Stage σ κ) : (advance s t).2.update = t.update := by
  match t with
  | .idle u | .loaded u v | .storing u v [] | .storing u v (w :: ws) => rfl

lemma busy_advance {s : σ} {t : Stage σ κ} (h : (advance s t).2.busy = true) : t.busy = true ∨ t.isIdle = true := by
  match t, h with
  | .idle r, _ => exact .inr rfl
  | .loaded u v, _ => exact .inl rfl
  | .storing u v [], h => exact .inl h
  | .storing u v (w :: ws), _ => exact .inl rfl

lemma advance_shared {start s : σ} {t : Stage σ κ} (ht : Fit look start s t) :
    (advance s t).1 = s ∨ t.busy = true ∧ ∀ k, k ≠ t.update.key → look (advance s t).1 k = look s k := by
  match t, ht with
  | .idle u, _ => exact .inl rfl
  | .loaded u v, _ => exact .inl rfl
  | .storing u v [], _ => exact .inl rfl
  | .storing u v (w :: ws), ⟨_, _, hws, _⟩ => exact .inr ⟨rfl, hws w (.head _)⟩

theorem preserves (start : σ) : Pool.Preserves (advance (κ := κ)) Apart (fun _ => True) (Fit look start) Distinct where
  symm t u h := ⟨h.1.symm, fun hb => h.2 hb.symm⟩
  own s t _ ht := ⟨trivial, ht.own⟩
  other s t u _ ht hu hp hg := by
    constructor
    · rcases advance_shared ht with hs | ⟨hbs, hk⟩
      · rw [hs]
        exact hu
      · exact hu.other (by simpa [hbs] using hp.2) (hk _ hp.1.symm)
    · refine ⟨by rw [advance_update]; exact hp.1, fun ⟨ht', hu'⟩ => ?_⟩
      rcases busy_advance ht' with hb | hi
      · exact hp.2 ⟨hb, hu'⟩
      · rw [hg hi] at hu'
        cases hu'

lemma pairwise_of_getElem {α : Type} {r : α → α → Prop} (hr : ∀ a b, r a b → r b a) {l : List α} (h : l.Pairwise r)
    {i j : ℕ} (hij : i ≠ j) {a b : α} (ha : l[i]? = some a) (hb : l[j]? = some b) : r a b := by
  obtain ⟨hi, rfl⟩ := List.getElem?_eq_some_iff.mp ha
  obtain ⟨hj, rfl⟩ := List.getElem?_eq_some_iff.mp hb
  rcases Nat.lt_or_gt_of_ne hij with hlt | hlt
  · exact pairwise_iff_getElem.mp h i j hi hj hlt
  · exact hr _ _ (pairwise_iff_getElem.mp h j i hj hi hlt)

lemma run_update (p : Pool σ (Stage σ κ)) (schedule : List ℕ) :
    (p.run advance schedule).threads.map Stage.update = p.threads.map Stage.update := by
  induction schedule generalizing p with
  | nil => rfl
  | cons i schedule ih =>
    refine (ih (p.step advance i)).trans ?_
    cases hi : p.threads[i]? with
    | none => rw [Pool.step_none hi]
    | some t =>
      obtain ⟨hlt, rfl⟩ := List.getElem?_eq_some_iff.mp hi
      rw [Pool.step_some hi, map_set, advance_update]
      refine ext_getElem (by simp) fun j hj hj' => ?_
      rw [getElem_set]
      split
      · next hij =>
        subst hij
        exact (getElem_map ..).symm
      · rfl

theorem run_reflects (look : σ → κ → Option ν) {start : σ} (us : List (Update σ κ)) (hl : ∀ u ∈ us, u.Local look)
    (hk : us.Pairwise fun u u' => u.key ≠ u'.key) {schedule : List ℕ}
    (hq : Pool.QuietRun advance Apart ⟨start, us.map .idle⟩ schedule) {i : ℕ} {u : Update σ κ} (hu : us[i]? = some u)
    (hd : (Pool.run advance ⟨start, us.map .idle⟩ schedule).threads[i]?.any Stage.succeeded = true) :
    ∃ v, u.succeeds v = true ∧ look v u.key = look start u.key ∧
      look (Pool.run advance ⟨start, us.map .idle⟩ schedule).shared u.key = look (u.outcome v) u.key := by
  have hs : Pool.Holds (fun _ => True) (Fit look start) Distinct ⟨start, us.map .idle⟩ := by
    refine ⟨trivial, fun i t ht => ?_, fun i j t t' hij ht ht' => ?_⟩
    · obtain ⟨u, hu, rfl⟩ := mem_map.mp (mem_of_getElem? ht)
      exact ⟨hl u hu, rfl⟩
    · rw [List.getElem?_map] at ht ht'
      obtain ⟨u, hu, rfl⟩ := Option.map_eq_some_iff.mp ht
      obtain ⟨u', hu', rfl⟩ := Option.map_eq_some_iff.mp ht'
      exact ⟨pairwise_of_getElem (fun _ _ h => h.symm) hk hij hu hu', fun hb => nomatch hb.1⟩
  have hh := hs.run (preserves start) schedule hq
  have hup := run_update ⟨start, us.map .idle⟩ schedule
  obtain ⟨t, ht, hok⟩ : ∃ t, (Pool.run advance ⟨start, us.map .idle⟩ schedule).threads[i]? = some t ∧
      t.succeeded = true := by
    cases ht : (Pool.run advance ⟨start, us.map .idle⟩ schedule).threads[i]? with
    | none =>
      rw [ht] at hd
      cases hd
    | some t =>
      rw [ht] at hd
      exact ⟨t, rfl, hd⟩
  have htu : t.update = u := by
    have hg := congrArg (fun l => l[i]?) hup
    simp only [List.getElem?_map, ht, hu, Option.map_some, Option.some.injEq] at hg
    exact hg
  match t, hok with
  | .storing u' v [], hok =>
    cases htu
    obtain ⟨-, hv, -, hls⟩ := hh.each i _ ht
    exact ⟨v, hok, hv, hls⟩

end Update

end Goiardi
