import Goiardi.Objects.Kinds

/-! Purging old sandboxes. -/

namespace Goiardi.Objects

open List

open Retention (cutoffAt)

structure Sandboxes where
  table : Table Sandbox
  keyed : ∀ k sb, table.lookup k = some sb → sb.id = k

/-- `Purge` in memory, where `t` is the time that is reckoned from the duration. -/
def Sandboxes.purge (sorting : KeySort Sandbox.creationTime) (t : ℤ) (s : Sandboxes) : ℕ × Table Sandbox :=
  purgeSorted sorting Sandbox.id (fun sb => t < sb.creationTime) (fun sb => sb.creationTime < t) s.table

/-- What `DELETE … WHERE creation_time < t` does. -/
structure PurgedBefore (t : ℤ) (s : Sandboxes) (r : ℕ × Table Sandbox) : Prop where
  count : r.1 = (s.table.list.map Prod.snd).countP fun sb => sb.creationTime < t
  kept : ∀ k, r.2.lookup k = (s.table.lookup k).filter fun sb => !decide (sb.creationTime < t)

variable (sorting : KeySort Sandbox.creationTime) (s : Sandboxes)

lemma purge_purgedBefore (t : ℤ) : PurgedBefore t s (s.purge sorting t) := by
  have ho (a b : Sandbox) (hab : a.creationTime ≤ b.creationTime) (hb : decide (b.creationTime < t) = true) :
      decide (a.creationTime < t) = true := by
    simp at hb ⊢
    omega
  obtain ⟨hc, hk⟩ := purgeSorted_spec sorting s.keyed ho fun a (ha : decide (t < a.creationTime) = true) => by
    simp at ha ⊢
    omega
  exact ⟨hc, hk⟩

lemma purgedBefore_iff (t t' : ℤ) : PurgedBefore t' s (s.purge sorting t) ↔
    ∀ k sb, s.table.lookup k = some sb → (sb.creationTime < t' ↔ sb.creationTime < t) := by
  have h := purge_purgedBefore sorting s t
  constructor
  · intro h' k sb hl
    have he := (h'.kept k).symm.trans (h.kept k)
    simp only [hl, Option.filter] at he
    grind
  · intro hs
    refine ⟨h.count.trans (countP_congr fun sb hsb => ?_), fun k => (h.kept k).trans ?_⟩
    · obtain ⟨e, he, rfl⟩ := mem_map.mp hsb
      simp [hs e.1 e.2 (Table.mem_list.mp he)]
    · cases hl : s.table.lookup k with
      | none => rfl
      | some sb => simp [Option.filter, hs k sb hl]

lemma cutoffAt_eq (now : ℤ) (dur : Int64) :
    cutoffAt now dur = if dur = Int64.minValue then now - 2 ^ 63 else now - dur.toInt := by
  have hlo := dur.le_toInt
  have hhi := dur.toInt_lt
  rw [cutoffAt, Int64.toInt_neg]
  split
  · next h => rw [h]; rfl
  · next h =>
    have hne : dur.toInt ≠ -2 ^ 63 := fun he => h (Int64.toInt_inj.mp (he.trans (by decide)))
    rw [Int.bmod_eq_of_le (by omega) (by omega)]
    omega

/-- The purge is that of the SQL statement, and the time is the exact one but for the least duration, whose negation is
itself. -/
theorem purge_exact_iff (now : ℤ) (olderThan : Int64) :
    PurgedBefore (cutoffAt now olderThan) s (s.purge sorting (cutoffAt now olderThan)) ∧
      (PurgedBefore (now - olderThan.toInt) s (s.purge sorting (cutoffAt now olderThan)) ↔
        (olderThan = Int64.minValue → ∀ k sb, s.table.lookup k = some sb →
          ¬ (now - 2 ^ 63 ≤ sb.creationTime ∧ sb.creationTime < now + 2 ^ 63))) := by
  refine ⟨purge_purgedBefore sorting s _, ?_⟩
  rw [purgedBefore_iff, cutoffAt_eq]
  split
  · next h =>
    have ht : olderThan.toInt = -2 ^ 63 := by rw [h]; rfl
    rw [imp_iff_right h, ht]
    refine forall_congr' fun k => forall_congr' fun sb => forall_congr' fun _ => ?_
    omega
  · next h => exact iff_of_true (fun _ _ _ => Iff.rfl) fun h' => absurd h' h

def oneSandbox : Sandboxes where
  table := AList.singleton "a".toList ⟨"a", 0, false, []⟩
  keyed k sb h := by
    have he := Table.mem_list (e := (k, sb)).mpr h
    cases mem_singleton.mp he
    rfl

theorem purge_keeps_old : ¬ PurgedBefore (0 - Int64.minValue.toInt) oneSandbox
    (oneSandbox.purge (.insertion _) (cutoffAt 0 Int64.minValue)) := by
  rw [purgedBefore_iff]
  exact fun h => absurd (h "a" _ rfl) (by decide)

end Goiardi.Objects
