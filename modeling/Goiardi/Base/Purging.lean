import Goiardi.Base.Loading
import Goiardi.Base.Sorting

/-! Removing old entries of a table: its values are sorted by time, and a binary search finds where the young begin. -/

namespace Goiardi

open List AList

variable {α : Type} {time : α → ℤ}

/-- `key` is where a value is stored, `skip` the test of the oldest value that ends the purge at once. -/
def purgeSorted (sorting : KeySort time) (key : α → Text) (skip old : α → Bool) (t : Table α) : ℕ × Table α :=
  match sorting.sort (t.list.map Prod.snd) with
  | [] => (0, t)
  | first :: rest =>
    if skip first then (0, t)
    else
      let i := searchBy (fun a => !old a) (first :: rest)
      (i, (((first :: rest).take i).map key).foldl (fun t k => t.erase k) t)

variable (sorting : KeySort time) {key : α → Text} {skip old : α → Bool} {t : Table α}

lemma lookup_eraseKeys {κ : Type} [DecidableEq κ] (ks : List κ) (t : AList fun _ : κ => α) (j : κ) :
    (ks.foldl (fun t k => t.erase k) t).lookup j = if j ∈ ks then none else t.lookup j := by
  induction ks generalizing t with
  | nil => simp
  | cons k ks ih =>
    rw [foldl_cons, ih]
    by_cases hj : j = k
    · subst hj
      simp
    · rw [lookup_erase_ne hj]
      simp [hj]

lemma purgeSorted_eq (ho : ∀ a b, time a ≤ time b → old b = true → old a = true)
    (hs : ∀ a, skip a = true → old a = false) : purgeSorted sorting key skip old t =
      (((sorting.sort (t.list.map Prod.snd)).filter old).length,
        (((sorting.sort (t.list.map Prod.snd)).filter old).map key).foldl (fun t k => t.erase k) t) := by
  have hsr := sorting.sorted (t.list.map Prod.snd)
  unfold purgeSorted
  cases hl : sorting.sort (t.list.map Prod.snd) with
  | nil => rfl
  | cons first rest =>
    rw [hl] at hsr
    have hsp := searchBy_splits (p := fun a => !old a) (l := first :: rest) (hsr.imp fun {a b} hab ha => by
      have := ho a b hab
      grind)
    have ht := hsp.drop.2
    simp only [Bool.not_not] at ht
    by_cases hf : skip first = true
    · have hn : (first :: rest).filter old = [] := by
        rw [filter_eq_nil_iff]
        rintro a ha hol
        have hfr := hs first hf
        rcases mem_cons.mp ha with rfl | ha
        · rw [hol] at hfr
          cases hfr
        · rw [ho first a ((pairwise_cons.mp hsr).1 a ha) hol] at hfr
          cases hfr
      simp only [hf, if_true, hn]
      rfl
    · simp only [hf, ← ht, length_take, Nat.min_eq_left hsp.le]
      rfl

/-- The old values are gone and counted, and all others stay. -/
lemma purgeSorted_spec (hk : ∀ k a, t.lookup k = some a → key a = k)
    (ho : ∀ a b, time a ≤ time b → old b = true → old a = true) (hs : ∀ a, skip a = true → old a = false) :
    (purgeSorted sorting key skip old t).1 = (t.list.map Prod.snd).countP old ∧
      ∀ k, (purgeSorted sorting key skip old t).2.lookup k = (t.lookup k).filter fun a => !old a := by
  have hm (a : α) : a ∈ sorting.sort (t.list.map Prod.snd) ↔ t.lookup (key a) = some a := by
    rw [(sorting.perm _).mem_iff, mem_map]
    constructor
    · rintro ⟨⟨k, a⟩, he, rfl⟩
      have hl := Table.mem_list.mp he
      rwa [hk k a hl]
    · exact fun h => ⟨(key a, a), Table.mem_list.mpr h, rfl⟩
  rw [purgeSorted_eq sorting ho hs]
  refine ⟨?_, fun k => ?_⟩
  · rw [← countP_eq_length_filter, (sorting.perm _).countP_eq]
  · rw [lookup_eraseKeys]
    cases hl : t.lookup k with
    | none => simp
    | some a =>
      obtain rfl := hk k a hl
      by_cases hol : old a = true
      · rw [if_pos (mem_map.mpr ⟨a, mem_filter.mpr ⟨(hm a).mpr hl, hol⟩, rfl⟩)]
        simp [Option.filter, hol]
      · rw [if_neg]
        · simp [Option.filter, hol]
        · intro hin
          obtain ⟨b, hb, he⟩ := mem_map.mp hin
          obtain ⟨hb, hb'⟩ := mem_filter.mp hb
          rw [hm, he, hl] at hb
          cases hb
          exact hol hb'

lemma purgeSorted_cutoff {cutoff : ℤ} (hk : ∀ k a, t.lookup k = some a → key a = k) :
    let purged := purgeSorted sorting key (fun a => cutoff < time a) (fun a => !decide (cutoff < time a)) t
    purged.1 = (t.list.map Prod.snd).countP (fun a => !decide (cutoff < time a)) ∧
      ∀ k, purged.2.lookup k = (t.lookup k).filter fun a => cutoff < time a := by
  have ho (a b : α) (hab : time a ≤ time b) (hb : (!decide (cutoff < time b)) = true) :
      (!decide (cutoff < time a)) = true := by
    simp at hb ⊢
    omega
  obtain ⟨hc, hl⟩ := purgeSorted_spec sorting hk ho fun a (ha : decide (cutoff < time a) = true) => by simp [ha]
  exact ⟨hc, fun k => (hl k).trans (by simp only [Bool.not_not])⟩

end Goiardi
