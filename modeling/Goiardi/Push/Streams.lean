import Goiardi.Dump.Document

/-! The output that the nodes of a job send in chunks. All chunks are in one store, under a key made of the job, the node,
the kind of output and the number of the chunk. -/

namespace Goiardi.Push

open Validation List
open Actors (Refusal badRequest)
open Dump (streamKey)
open Objects (ShoveyRunStream)

abbrev Streams := AList fun _ : Text => ShoveyRunStream

structure PutStream where
  run : ShoveyRun
  streamData : JsonMap
  now : ℤ

def PutStream.chunk (r : PutStream) : Except Refusal ShoveyRunStream := do
  let output ← match lookupField r.streamData "output" with
    | .str output => .ok output
    | _ => .error (badRequest "invalid output")
  let outputType ← match lookupField r.streamData "output_type" with
    | .str outputType => .ok outputType
    | _ => .error (badRequest "invalid output type")
  let isLast ← match lookupField r.streamData "is_last" with
    | .bool isLast => .ok isLast
    | _ => .error (badRequest "invalid is_last")
  let seq ← match lookupField r.streamData "seq" with
    | .num literal => .ok (Text.parseInt literal).1
    | _ => .error (badRequest "invalid seq")
  return ⟨r.run.shoveyUUID, r.run.nodeName, seq, outputType, output, isLast, r.now⟩

def keyOf (c : ShoveyRunStream) : Text := streamKey c.shoveyUUID c.nodeName c.outputType (Text.formatInt c.seq)

def sequenceExists (c : ShoveyRunStream) : Refusal :=
  ⟨"sequence " ++ Text.formatInt c.seq ++ " for " ++ c.shoveyUUID ++ " - " ++ c.nodeName ++
    " already exists", 409⟩

def addStreamOutput (c : ShoveyRunStream) (s : Streams) : Except Refusal Unit × Streams :=
  match s.lookup (keyOf c) with
  | some _ => (.error (sequenceExists c), s)
  | none => (.ok (), s.insert (keyOf c) c)

def putStream (s : Streams) (r : PutStream) : Except Refusal Unit × Streams :=
  match r.chunk with
  | .error e => (.error e, s)
  | .ok c => addStreamOutput c s

def putAll (rs : List PutStream) : Streams := rs.foldl (fun s r => (putStream s r).2) ∅

structure StreamId where
  shoveyUUID : Text
  nodeName : Text
  outputType : Text
deriving DecidableEq

def idOf (c : ShoveyRunStream) : StreamId := ⟨c.shoveyUUID, c.nodeName, c.outputType⟩

/-- The first rounds of the loop of `GetStreamOutput`. -/
def streamsFrom (s : Streams) (i : StreamId) : ℕ → Int64 → List ShoveyRunStream
  | 0, _ => []
  | rounds + 1, seq =>
    match s.lookup (streamKey i.shoveyUUID i.nodeName i.outputType (Text.formatInt seq.toInt)) with
    | none => []
    | some c => c :: streamsFrom s i rounds (seq + 1)

section

def Within (ids : Set StreamId) (rs : List PutStream) : Prop := ∀ r ∈ rs, ∀ c, r.chunk = .ok c → idOf c ∈ ids

structure Isolated (ids : Set StreamId) : Prop where
  refused : ∀ rs r c, Within ids (r :: rs) → r.chunk = .ok c → (putStream (putAll rs) r).1 ≠ .ok () →
    ∃ r' ∈ rs, ∃ c', r'.chunk = .ok c' ∧ idOf c' = idOf c ∧ c'.seq = c.seq
  read : ∀ rs i rounds seq, Within ids rs → i ∈ ids → ∀ c ∈ streamsFrom (putAll rs) i rounds seq, idOf c = i

/-- The name of one node is that of the other, an underscore and the start of the other's kind of output. -/
def Overlap (i j : StreamId) : Prop :=
  i.shoveyUUID = j.shoveyUUID ∧ ∃ w, j.nodeName = i.nodeName ++ '_' :: w ∧ i.outputType = w ++ '_' :: j.outputType

variable {i j : StreamId} {s : Streams} {rs : List PutStream} {c : ShoveyRunStream}

lemma append_underscore_eq {a b a' b' : Text} (h : a ++ '_' :: b = a' ++ '_' :: b') :
    (a = a' ∧ b = b') ∨ (∃ w, a' = a ++ '_' :: w ∧ b = w ++ '_' :: b') ∨ ∃ w, a = a' ++ '_' :: w ∧ b' = w ++ '_' :: b := by
  have hs : ∀ {x y z : Text}, '_' :: y = x ++ '_' :: z → (x = [] ∧ y = z) ∨ ∃ w, x = '_' :: w ∧ y = w ++ '_' :: z := by
    intro x y z hx
    cases x with
    | nil => exact .inl ⟨rfl, (List.cons.inj hx).2⟩
    | cons d w =>
      obtain ⟨rfl, hy⟩ := List.cons.inj hx
      exact .inr ⟨w, rfl, hy⟩
  rcases append_eq_append_iff.mp h with ⟨x, rfl, hx⟩ | ⟨x, rfl, hx⟩
  · rcases hs hx with ⟨rfl, rfl⟩ | ⟨w, rfl, rfl⟩
    · exact .inl ⟨(append_nil a).symm, rfl⟩
    · exact .inr (.inl ⟨w, rfl, rfl⟩)
  · rcases hs hx with ⟨rfl, rfl⟩ | ⟨w, rfl, rfl⟩
    · exact .inl ⟨append_nil a', rfl⟩
    · exact .inr (.inr ⟨w, rfl, rfl⟩)

lemma underscore_not_mem_formatInt (n : ℤ) : '_' ∉ Text.formatInt n := by
  have hn := Text.not_mem_formatNat (c := '_') rfl
  unfold Text.formatInt
  split_ifs
  · simp [hn]
  · exact hn _

lemma streamKey_eq_iff {m n : ℤ} (hi : '_' ∉ i.shoveyUUID) (hj : '_' ∉ j.shoveyUUID) :
    streamKey i.shoveyUUID i.nodeName i.outputType (Text.formatInt m) =
        streamKey j.shoveyUUID j.nodeName j.outputType (Text.formatInt n) ↔
      m = n ∧ (i = j ∨ Overlap i j ∨ Overlap j i) := by
  obtain ⟨u, a, t⟩ := i
  obtain ⟨u', a', t'⟩ := j
  constructor
  · intro h
    obtain ⟨h, hs⟩ := Text.append_cons_inj_right h (underscore_not_mem_formatInt m) (underscore_not_mem_formatInt n)
    rw [append_assoc, append_assoc] at h
    obtain ⟨rfl, h⟩ := Text.append_cons_inj_left h hi hj
    refine ⟨Text.formatInt_injective hs, ?_⟩
    rcases append_underscore_eq h with ⟨rfl, rfl⟩ | hw | hw
    · exact .inl rfl
    · exact .inr (.inl ⟨rfl, hw⟩)
    · exact .inr (.inr ⟨rfl, hw⟩)
  · rintro ⟨rfl, h | ⟨h, w, hn, ht⟩ | ⟨h, w, hn, ht⟩⟩
    · rw [h]
    · simp only at h hn ht
      subst h hn ht
      simp [streamKey]
    · simp only at h hn ht
      subst h hn ht
      simp [streamKey]

def Kept (rs : List PutStream) (s : Streams) : Prop :=
  ∀ k c, s.lookup k = some c → k = keyOf c ∧ ∃ r ∈ rs, r.chunk = .ok c

lemma Kept.step {r : PutStream} (h : Kept rs s) : Kept (rs ++ [r]) (putStream s r).2 := by
  have ho : Kept (rs ++ [r]) s := by
    intro k c hk
    obtain ⟨hky, r', hr', hc⟩ := h k c hk
    exact ⟨hky, r', mem_append_left _ hr', hc⟩
  unfold putStream
  split
  · exact ho
  · next c hc =>
    unfold addStreamOutput
    split
    · exact ho
    · intro k d hk
      by_cases hky : k = keyOf c
      · subst hky
        rw [AList.lookup_insert] at hk
        cases hk
        exact ⟨rfl, r, by simp, hc⟩
      · rw [AList.lookup_insert_ne hky] at hk
        exact ho k d hk

lemma kept_putAll (rs : List PutStream) : Kept rs (putAll rs) := by
  have hr : ∀ (later before : List PutStream) (s : Streams), Kept before s →
      Kept (before ++ later) (later.foldl (fun s r => (putStream s r).2) s) := by
    intro later
    induction later with
    | nil =>
      intro before s h
      rwa [append_nil]
    | cons r later ih =>
      intro before s h
      have hn := ih (before ++ [r]) (putStream s r).2 h.step
      rwa [append_assoc, singleton_append] at hn
  exact hr rs [] ∅ fun k c hk => by cases hk

lemma mem_streamsFrom {rounds : ℕ} {seq : Int64} (h : c ∈ streamsFrom s i rounds seq) :
    ∃ n : ℤ, s.lookup (streamKey i.shoveyUUID i.nodeName i.outputType (Text.formatInt n)) = some c := by
  induction rounds generalizing seq with
  | zero => cases h
  | succ rounds ih =>
    unfold streamsFrom at h
    split at h
    · cases h
    · next d hd =>
      rcases mem_cons.mp h with rfl | h
      · exact ⟨_, hd⟩
      · exact ih h

def requestFor (i : StreamId) : PutStream where
  run := ⟨i.shoveyUUID, i.nodeName, [], 0, 0, [], 0⟩
  streamData := [("output", .str []), ("output_type", .str i.outputType), ("is_last", .bool false),
    ("seq", .num "0")]
  now := 0

lemma chunk_requestFor (i : StreamId) :
    (requestFor i).chunk = .ok ⟨i.shoveyUUID, i.nodeName, 0, i.outputType, [], false, 0⟩ := rfl

lemma requestFor_refused (h : streamKey i.shoveyUUID i.nodeName i.outputType (Text.formatInt 0) =
    streamKey j.shoveyUUID j.nodeName j.outputType (Text.formatInt 0)) :
    (putStream (putAll [requestFor j]) (requestFor i)).1 ≠ .ok () := by
  have ha : putAll [requestFor j] = AList.insert (streamKey j.shoveyUUID j.nodeName j.outputType (Text.formatInt 0))
      ⟨j.shoveyUUID, j.nodeName, 0, j.outputType, [], false, 0⟩ ∅ := rfl
  rw [putStream, chunk_requestFor]
  dsimp only
  rw [addStreamOutput, keyOf, h, ha, AList.lookup_insert]
  simp

end

end Goiardi.Push
