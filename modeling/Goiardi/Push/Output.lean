import Goiardi.Push.Streams

/-! The output of one node in a job, put together again from its chunks. -/

namespace Goiardi.Push

open List AList
open Actors (Refusal)
open Dump (streamKey)
open Objects (ShoveyRunStream)

structure Chunk where
  output : Text
  seq : Int64
  isLast : Bool
  createdAt : ℤ

def firstOf (chunks : List Chunk) (m : ℤ) : Option Chunk := chunks.find? fun o => o.seq.toInt = m

namespace StreamId

variable (i : StreamId) (s : Streams)

def key (m : ℤ) : Text := streamKey i.shoveyUUID i.nodeName i.outputType (Text.formatInt m)

def stream (o : Chunk) : ShoveyRunStream :=
  ⟨i.shoveyUUID, i.nodeName, o.seq.toInt, i.outputType, o.output, o.isLast, o.createdAt⟩

def add (o : Chunk) : Except Refusal Unit × Streams := addStreamOutput (i.stream o) s

def addAll (chunks : List Chunk) : Streams := chunks.foldl (fun s o => (i.add s o).2) s

def combineStreamOutput (sorting : KeySort ShoveyRunStream.seq) (rounds : ℕ) (seq : Int64) : Text :=
  (sorting.sort (streamsFrom s i rounds seq)).flatMap (·.output)

variable {i s} {o : Chunk} {chunks : List Chunk} {m : ℤ} {n : ℕ}

lemma key_injective : Function.Injective i.key := fun m m' h =>
  Text.formatInt_injective (by simpa [key, streamKey] using h)

lemma add_of_some {d : ShoveyRunStream} (h : s.lookup (i.key o.seq.toInt) = some d) :
    i.add s o = (.error (sequenceExists (i.stream o)), s) := by
  have hk : s.lookup (keyOf (i.stream o)) = some d := h
  rw [add, addStreamOutput, hk]

lemma add_of_none (h : s.lookup (i.key o.seq.toInt) = none) :
    i.add s o = (.ok (), s.insert (i.key o.seq.toInt) (i.stream o)) := by
  have hk : s.lookup (keyOf (i.stream o)) = none := h
  rw [add, addStreamOutput, hk]
  rfl

lemma lookup_add (m : ℤ) : (i.add s o).2.lookup (i.key m) =
    (s.lookup (i.key m)).or (if o.seq.toInt = m then some (i.stream o) else none) := by
  cases h : s.lookup (i.key o.seq.toInt) with
  | some d =>
    rw [add_of_some h]
    split
    · next hm => rw [← hm, h, Option.some_or]
    · rw [Option.or_none]
  | none =>
    rw [add_of_none h]
    split
    · next hm => rw [← hm, lookup_insert, h, Option.none_or]
    · next hm => rw [lookup_insert_ne fun he => hm (key_injective he).symm, Option.or_none]

lemma lookup_addAll (chunks : List Chunk) (m : ℤ) :
    (i.addAll s chunks).lookup (i.key m) = (s.lookup (i.key m)).or ((firstOf chunks m).map i.stream) := by
  induction chunks generalizing s with
  | nil => simp [addAll, firstOf]
  | cons o chunks ih =>
    have hf : i.addAll s (o :: chunks) = i.addAll (i.add s o).2 chunks := rfl
    rw [hf, ih, lookup_add, firstOf, firstOf, find?_cons]
    by_cases hm : o.seq.toInt = m <;> simp [hm]

lemma firstOf_seq (h : firstOf chunks m = some o) : o.seq.toInt = m := by simpa using find?_some h

lemma isSome_firstOf : (firstOf chunks m).isSome = true ↔ ∃ o ∈ chunks, o.seq.toInt = m := by simp [firstOf, find?_isSome]

section

variable (hseq : ∀ m : ℤ, (∃ o ∈ chunks, o.seq.toInt = m) ↔ 0 ≤ m ∧ m < n)

include hseq

-- the numbers are machine integers, so that the counter of the loop does not come round to one of them
lemma not_numbered : firstOf chunks (Int64.ofNat n).toInt = none := by
  have hn : n ≤ 2 ^ 63 := by
    by_contra! hlt
    obtain ⟨o, -, ho⟩ := (hseq (n - 1)).mpr (by omega)
    have := o.seq.toInt_lt
    omega
  rw [← Option.not_isSome_iff_eq_none, isSome_firstOf, hseq]
  rcases hn.lt_or_eq with hlt | rfl
  · rw [Int64.toInt_ofNat_of_lt hlt]
    omega
  · decide

lemma streamsFrom_eq (hl : ∀ m, s.lookup (i.key m) = (firstOf chunks m).map i.stream) (d : ℕ) {k rounds : ℕ}
    (hk : k + d = n) (hr : d < rounds) :
    streamsFrom s i rounds (Int64.ofNat k) = ((range' k d).filterMap fun m : ℕ => firstOf chunks m).map i.stream := by
  induction d generalizing k rounds with
  | zero =>
    obtain ⟨rounds, rfl⟩ := Nat.exists_eq_succ_of_ne_zero hr.ne'
    have hf := hl (Int64.ofNat k).toInt
    rw [show k = n from hk, not_numbered hseq] at hf
    rw [streamsFrom, show k = n from hk, show s.lookup (streamKey _ _ _ _) = _ from hf]
    rfl
  | succ d ih =>
    obtain ⟨rounds, rfl⟩ := Nat.exists_eq_succ_of_ne_zero (Nat.ne_zero_of_lt hr)
    obtain ⟨o, ho⟩ := Option.isSome_iff_exists.mp (isSome_firstOf.mpr ((hseq k).mpr (by omega)))
    have hf := hl k
    have hlt := o.seq.toInt_lt
    have hs := firstOf_seq ho
    rw [ho, ← Int64.toInt_ofNat_of_lt (by omega : k < 2 ^ 63)] at hf
    rw [streamsFrom, show s.lookup (streamKey _ _ _ _) = _ from hf, range'_succ]
    simp only [filterMap_cons, ho, Option.map_some, map_cons]
    rw [← ih (by omega : k + 1 + d = n) (by omega : d < rounds), Int64.ofNat_add]
    rfl

/-- A chunk whose number has come before is refused and changes nothing, and the output from any number on is that of the
first chunks of the numbers. -/
theorem combineStreamOutput_eq (sorting : KeySort ShoveyRunStream.seq) (hfree : ∀ m, s.lookup (i.key m) = none) :
    (∀ before o after, chunks = before ++ o :: after →
      if ∃ d ∈ before, d.seq = o.seq then
        i.add (i.addAll s before) o = (.error (sequenceExists (i.stream o)), i.addAll s before)
      else (i.add (i.addAll s before) o).1 = .ok ()) ∧
      ∀ k rounds, k ≤ n → n - k < rounds → i.combineStreamOutput (i.addAll s chunks) sorting rounds (Int64.ofNat k) =
        ((range' k (n - k)).filterMap fun m : ℕ => firstOf chunks m).flatMap Chunk.output := by
  have hl (chunks : List Chunk) (m : ℤ) : (i.addAll s chunks).lookup (i.key m) = (firstOf chunks m).map i.stream := by
    rw [lookup_addAll, hfree, Option.none_or]
  constructor
  · intro before o after _
    have hb : (firstOf before o.seq.toInt).isSome = true ↔ ∃ d ∈ before, d.seq = o.seq := by
      simp only [isSome_firstOf, Int64.toInt_inj]
    split
    · next hd =>
      obtain ⟨d, hf⟩ := Option.isSome_iff_exists.mp (hb.mpr hd)
      exact add_of_some (by rw [hl, hf, Option.map_some])
    · next hd =>
      have hf := Option.not_isSome_iff_eq_none.mp fun h => hd (hb.mp h)
      rw [add_of_none (by rw [hl, hf, Option.map_none])]
  · intro k rounds hk hr
    rw [combineStreamOutput, streamsFrom_eq hseq (hl chunks) (n - k) (by omega) hr, sorting.sort_eq, flatMap_map]
    · rfl
    · rw [pairwise_map, pairwise_filterMap]
      refine (pairwise_lt_range' 1).imp fun {a b} hab o ho o' ho' => ?_
      have ha : o.seq.toInt = a := firstOf_seq ho
      have hb : o'.seq.toInt = b := firstOf_seq ho'
      simp only [stream, ha, hb]
      exact_mod_cast hab

end

theorem combineStreamOutput_eq_hello :
    let i : StreamId := ⟨"1b4e", "web", "stdout"⟩
    let chunks : List Chunk := [⟨"lo", 1, true, 2⟩, ⟨"hel", 0, false, 1⟩, ⟨"p", 1, true, 3⟩]
    i.combineStreamOutput (i.addAll ∅ chunks) (.insertion _) 3 0 = "hello" := by
  intro i chunks
  refine ((combineStreamOutput_eq (n := 2) ?_ (.insertion _) fun _ => rfl).2 0 3 (by decide) (by decide)).trans rfl
  intro m
  simp only [chunks, mem_cons, not_mem_nil, or_false, exists_eq_or_imp, exists_eq_left]
  change (1 = m ∨ 0 = m ∨ 1 = m) ↔ 0 ≤ m ∧ m < 2
  omega

end StreamId

end Goiardi.Push
