import Goiardi.Dump.Readers

/-! The statuses of the nodes, which are read in the order they were written, and the output of the runs, which is
written as far as it has no gap. -/

namespace Goiardi.Dump

open Validation List
open Nodes (StatusStore)
open Objects (Node ShoveyRunStream)
open Push (Shovey ShoveyRun)
open Retention (NodeStatus)
open Uploads (Fault)

section

def view (ns : NodeStatus) : Text × Text × ℤ := (ns.node.name, ns.status, ns.updatedAt)

def encodes (_ : NodeStatus) : Option Text := none

def InOrder (st : StatusStore NodeStatus) : Prop := ∀ name, st.latest name = (st.statuses name).getLast?

variable (formats : Formats) {nodes : Table Node} {st : StatusStore NodeStatus} {l : List NodeStatus}

lemma importStatus_eq (ns : NodeStatus) : importStatus formats nodes st (.obj (statusJSON formats ns)) =
    .ok (match nodes.lookup ns.node.name with
      | none => st
      | some node => st.record node.name ⟨node, ns.status, ns.updatedAt⟩) := by
  have hm : importStatus formats nodes st (.obj (statusJSON formats ns)) = (do
      let updatedAt ← attempt (formats.readTime (formats.time ns.updatedAt))
      match nodes.lookup ns.node.name with
      | none => return st
      | some node => return st.record node.name ⟨node, ns.status, updatedAt⟩) := rfl
  rw [hm, attempt_readTime, ok_bind]
  split <;> rfl

def ofNode (nodes : Table Node) (name : Text) (l : List NodeStatus) : List NodeStatus :=
  l.filter fun ns => ns.node.name = name && (nodes.lookup name).isSome

lemma InOrder.record (h : InOrder st) (hst : st.Consistent encodes) (name : Text) (ns : NodeStatus) :
    InOrder (st.record name ns) := by
  intro n
  rw [StatusStore.latest_record hst rfl, StatusStore.statuses_record hst]
  split
  · rw [List.getLast?_append]
    rfl
  · exact h n

lemma importStatuses_spec (hnd : ∀ k n, nodes.lookup k = some n → n.name = k) (hst : st.Consistent encodes)
    (ho : InOrder st) :
    ∃ r, (objects (statusJSON formats) l).foldlM (importStatus formats nodes) st = .ok r ∧ InOrder r ∧
      ∀ name, (r.statuses name).map view = (st.statuses name).map view ++ (ofNode nodes name l).map view := by
  induction l generalizing st with
  | nil => exact ⟨st, rfl, ho, fun name => by simp [ofNode]⟩
  | cons ns l ih =>
    change ∃ r, (importStatus formats nodes st (.obj (statusJSON formats ns)) >>=
      fun st => (objects (statusJSON formats) l).foldlM (importStatus formats nodes) st) = .ok r ∧ _
    rw [importStatus_eq, ok_bind]
    cases hn : nodes.lookup ns.node.name with
    | none =>
      obtain ⟨r, hr, hro, hs⟩ := ih hst ho
      refine ⟨r, hr, hro, fun name => ?_⟩
      rw [hs, ofNode, ofNode, filter_cons_of_neg]
      simp only [Bool.and_eq_true, decide_eq_true_eq, not_and]
      rintro rfl
      simp [hn]
    | some node =>
      obtain ⟨r, hr, hro, hs⟩ := ih (hst.record node.name rfl) (ho.record hst node.name ⟨node, ns.status, ns.updatedAt⟩)
      refine ⟨r, hr, hro, fun name => ?_⟩
      have hnm : node.name = ns.node.name := hnd _ _ hn
      rw [hs, StatusStore.statuses_record hst, ofNode, ofNode]
      by_cases h : name = node.name
      · have hv : view ⟨node, ns.status, ns.updatedAt⟩ = view ns := by rw [view, view, hnm]
        rw [if_pos h, filter_cons_of_pos (by rw [h, hnm, hn]; simp), map_append, append_assoc, h]
        simp [hv]
      · have hne : ns.node.name ≠ name := fun heq => h (heq.symm.trans hnm.symm)
        rw [if_neg h, filter_cons_of_neg (by simp [hne])]

def written (s : Server) : List NodeStatus := s.nodes.list.flatMap fun e => s.statuses.statuses e.2.name

structure SameStatuses (st r : StatusStore NodeStatus) : Prop where
  statuses : ∀ name, ((r.statuses name).map view).Perm ((st.statuses name).map view)
  latest : ∀ name, (r.latest name).map view = (st.latest name).map view

structure StatusesReturn (s : Server) : Prop where
  filed : ∀ name, ∀ ns ∈ s.statuses.statuses name, ns.node.name = name ∧ (s.nodes.lookup name).isSome = true
  latest : ∀ name, (s.statuses.latest name).map view = ((s.statuses.statuses name).getLast?).map view

lemma flatMap_single {α β : Type} {l : List (Text × α)} {f : Text → List β} {k : Text} (hn : (l.map Prod.fst).Nodup)
    (hf : ∀ j, j ≠ k → f j = []) : (l.flatMap fun e => f e.1) = if k ∈ l.map Prod.fst then f k else [] := by
  induction l with
  | nil => rfl
  | cons e l ih =>
    obtain ⟨hnm, hn⟩ := nodup_cons.mp hn
    rw [flatMap_cons, ih hn]
    by_cases h : e.1 = k
    · subst h
      rw [if_neg hnm, if_pos (.head _), append_nil]
    · rw [hf e.1 h, nil_append]
      exact if_congr (by rw [map_cons, mem_cons, or_iff_right (Ne.symm h)]) rfl rfl

variable {s : Server}

lemma ofNode_written (hnd : ∀ k n, s.nodes.lookup k = some n → n.name = k)
    (hf : ∀ name, ∀ ns ∈ s.statuses.statuses name, ns.node.name = name ∧ (s.nodes.lookup name).isSome = true)
    (hsm : ∀ k, nodes.lookup k = s.nodes.lookup k) (name : Text) :
    ofNode nodes name (written s) = s.statuses.statuses name := by
  have hw : written s = s.nodes.list.flatMap fun e => s.statuses.statuses e.1 :=
    flatMap_congr fun e he => by rw [hnd e.1 e.2 (Table.mem_list.mp he)]
  have ho : ∀ j, j ≠ name → ofNode nodes name (s.statuses.statuses j) = [] := by
    intro j hj
    refine filter_eq_nil_iff.mpr fun ns hns => ?_
    simp [(hf j ns hns).1, hj]
  have how : ofNode nodes name (s.statuses.statuses name) = s.statuses.statuses name := by
    refine filter_eq_self.mpr fun ns hns => ?_
    obtain ⟨hnm, hso⟩ := hf name ns hns
    simp [hnm, hsm, hso]
  have hs : ofNode nodes name (written s) =
      s.nodes.list.flatMap fun e => ofNode nodes name (s.statuses.statuses e.1) := by
    rw [hw, ofNode, filter_flatMap]
    rfl
  rw [hs, flatMap_single s.nodes.nodup_list ho, how]
  split
  · rfl
  · next hm =>
    -- a node that is not there has no statuses
    cases hst : s.statuses.statuses name with
    | nil => rfl
    | cons ns l =>
      obtain ⟨n, hn⟩ := Option.isSome_iff_exists.mp (hf name ns (by simp [hst])).2
      exact absurd (mem_map.mpr ⟨(name, n), Table.mem_list.mpr hn, rfl⟩) hm

lemma consistent_none : (⟨none, none⟩ : StatusStore NodeStatus).Consistent encodes where
  together := rfl
  listed _ _ h := nomatch h
  nodup _ := nodup_nil
  disjoint _ _ _ h := nomatch h
  encodable _ _ h := nomatch h

lemma statuses_restored_iff (hnd : ∀ k n, s.nodes.lookup k = some n → n.name = k)
    (hs : ∀ k, nodes.lookup k = s.nodes.lookup k) :
    (∃ r, (objects (statusJSON formats) (written s)).foldlM (importStatus formats nodes) ⟨none, none⟩ = .ok r ∧
      SameStatuses s.statuses r) ↔ StatusesReturn s := by
  have hn' : ∀ k n, nodes.lookup k = some n → n.name = k := fun k n hn => hnd k n (hs k ▸ hn)
  obtain ⟨r, hr, ho, hst⟩ := importStatuses_spec (l := written s) formats hn' consistent_none fun _ => rfl
  have he : ∀ name, (r.statuses name).map view = (ofNode nodes name (written s)).map view := hst
  have hl : ∀ name, (r.latest name).map view = ((r.statuses name).map view).getLast? := by
    intro name
    rw [ho, List.getLast?_map]
  constructor
  · rintro ⟨r', hr', hrt⟩
    cases hr.symm.trans hr'
    have hf : ∀ name, ∀ ns ∈ s.statuses.statuses name, ns.node.name = name ∧ (s.nodes.lookup name).isSome = true := by
      intro name ns hns
      have hm := (hrt.statuses name).mem_iff.mpr (mem_map_of_mem hns)
      rw [he] at hm
      obtain ⟨ns', hns', hv⟩ := mem_map.mp hm
      obtain ⟨hnm, hsm⟩ : ns'.node.name = name ∧ (nodes.lookup name).isSome = true := by
        simpa using (mem_filter.mp hns').2
      exact ⟨(congrArg Prod.fst hv).symm.trans hnm, hs name ▸ hsm⟩
    refine ⟨hf, fun name => ?_⟩
    rw [← hrt.latest, hl, he, ofNode_written hnd hf hs, List.getLast?_map]
  · rintro ⟨hf, hls⟩
    refine ⟨r, hr, fun name => ?_, fun name => ?_⟩
    · rw [he, ofNode_written hnd hf hs]
    · rw [hl, he, ofNode_written hnd hf hs, hls, List.getLast?_map]

lemma allNodeStatuses_eq_ok_iff (hst : s.statuses.Consistent encodes) {l : List NodeStatus} :
    s.allNodeStatuses = .ok l ↔ (s.nodes.list = [] ∨ s.statuses.objs.isSome = true) ∧ l = written s := by
  rw [Server.allNodeStatuses, written]
  cases hm : s.statuses.objs.isSome with
  | true =>
    have ha : s.nodes.list.mapM (fun e => s.statuses.allNodeStatuses e.2.name) =
        .ok (s.nodes.list.map fun e => s.statuses.statuses e.2.name) :=
      mapM_ok fun e _ => StatusStore.allNodeStatuses_eq hst hm e.2.name
    rw [ha, ok_bind, ok_eq_ok_iff, ← flatMap_def]
    exact ⟨fun h => ⟨.inr rfl, h.symm⟩, fun h => h.2.symm⟩
  | false =>
    have hn : s.statuses = ⟨none, none⟩ := by
      obtain h | ⟨objs, lists, h⟩ := hst.cases
      · exact h
      · rw [h] at hm
        cases hm
    cases hl : s.nodes.list with
    | nil =>
      change Except.ok [] = .ok l ↔ _
      simp [eq_comm]
    | cons e es =>
      have hf : s.statuses.allNodeStatuses e.2.name = .error StatusStore.noStatuses := by
        rw [hn]
        rfl
      rw [mapM_cons, hf]
      constructor
      · intro h
        cases h
      · rintro ⟨h | h, -⟩ <;> cases h

end

section

variable {s : Server} {sr : ShoveyRun} {outputType : Text} {srs : ShoveyRunStream}

def chunkKey (sr : ShoveyRun) (outputType : Text) (i : ℕ) : Text :=
  streamKey sr.shoveyUUID sr.nodeName outputType (Text.formatInt i)

lemma chunkKey_injective (sr : ShoveyRun) (outputType : Text) : Function.Injective (chunkKey sr outputType) := by
  intro i j h
  have hs : Text.formatInt i = Text.formatInt j := by
    simpa [chunkKey, streamKey] using h
  exact Text.formatNat_injective hs

lemma mem_streamsFrom {fuel i : ℕ} : srs ∈ s.streamsFrom sr outputType fuel i ↔
    ∃ j, i ≤ j ∧ j < i + fuel ∧ (∀ m, i ≤ m → m < j → (s.streams.lookup (chunkKey sr outputType m)).isSome = true) ∧
      s.streams.lookup (chunkKey sr outputType j) = some srs := by
  induction fuel generalizing i with
  | zero =>
    refine ⟨fun h => absurd h not_mem_nil, ?_⟩
    rintro ⟨j, hij, hj, -⟩
    omega
  | succ fuel ih =>
    cases hi : s.streams.lookup (chunkKey sr outputType i) with
    | none =>
      rw [Server.streamsFrom, ← chunkKey, hi]
      refine ⟨fun h => absurd h not_mem_nil, ?_⟩
      rintro ⟨j, hij, -, hb, hj⟩
      rcases hij.eq_or_lt with rfl | hlt
      · rw [hi] at hj
        cases hj
      · have hsm := hb i le_rfl hlt
        rw [hi] at hsm
        cases hsm
    | some first =>
      rw [Server.streamsFrom, ← chunkKey, hi, mem_cons, ih]
      constructor
      · rintro (rfl | ⟨j, hij, hj, hb, hs⟩)
        · exact ⟨i, le_rfl, by omega, fun m him hmi => absurd him (by omega), hi⟩
        · refine ⟨j, by omega, by omega, fun m him hmj => ?_, hs⟩
          rcases him.eq_or_lt with rfl | hlt
          · rw [hi]
            rfl
          · exact hb m hlt hmj
      · rintro ⟨j, hij, hj, hb, hs⟩
        rcases hij.eq_or_lt with rfl | hlt
        · rw [hi] at hs
          exact .inl (Option.some.inj hs).symm
        · exact .inr ⟨j, hlt, by omega, fun m him hmj => hb m (by omega) hmj, hs⟩

lemma lt_length_keys {j : ℕ} (h : ∀ m, m ≤ j → (s.streams.lookup (chunkKey sr outputType m)).isSome = true) :
    j < s.streams.keys.length := by
  have hs : (List.range (j + 1)).map (chunkKey sr outputType) ⊆ s.streams.keys := by
    intro k hk
    obtain ⟨m, hm, rfl⟩ := mem_map.mp hk
    exact AList.lookup_isSome.mp (h m (Nat.lt_succ_iff.mp (mem_range.mp hm)))
  have hn : ((List.range (j + 1)).map (chunkKey sr outputType)).Nodup :=
    nodup_range.map (chunkKey_injective sr outputType)
  have hle := (hn.subperm hs).length_le
  rwa [length_map, length_range] at hle

lemma mem_getStreamOutput : srs ∈ s.getStreamOutput sr outputType 0 ↔
    ∃ j, (∀ m, m < j → (s.streams.lookup (chunkKey sr outputType m)).isSome = true) ∧
      s.streams.lookup (chunkKey sr outputType j) = some srs := by
  rw [Server.getStreamOutput, mem_streamsFrom]
  constructor
  · rintro ⟨j, -, -, hb, hj⟩
    exact ⟨j, fun m hm => hb m (Nat.zero_le m) hm, hj⟩
  · rintro ⟨j, hb, hj⟩
    have ht : ∀ m, m ≤ j → (s.streams.lookup (chunkKey sr outputType m)).isSome = true := by
      intro m hm
      rcases hm.eq_or_lt with rfl | hlt
      · rw [hj]
        rfl
      · exact hb m hlt
    have hlt := lt_length_keys ht
    exact ⟨j, Nat.zero_le j, by omega, fun m _ hm => hb m hm, hj⟩

lemma mem_allShoveyRuns : sr ∈ s.allShoveyRuns ↔
    ∃ k sh n, s.shoveys.lookup k = some sh ∧ n ∈ sh.nodeNames ∧ s.runs.lookup (sh.runID ++ n) = some sr := by
  simp only [Server.allShoveyRuns, Server.getNodeRuns, mem_flatMap, mem_filterMap]
  constructor
  · rintro ⟨e, he, n, hn, hsr⟩
    exact ⟨e.1, e.2, n, Table.mem_list.mp he, hn, hsr⟩
  · rintro ⟨k, sh, n, hsh, hn, hsr⟩
    exact ⟨(k, sh), Table.mem_list.mpr hsh, n, hn, hsr⟩

lemma mem_allShoveyRunStreams : srs ∈ s.allShoveyRunStreams ↔ ∃ sr ∈ s.allShoveyRuns, ∃ t ∈ Server.outputTypes, ∃ j,
      (∀ m, m < j → (s.streams.lookup (chunkKey sr t m)).isSome = true) ∧
      s.streams.lookup (chunkKey sr t j) = some srs := by
  simp only [Server.allShoveyRunStreams, mem_flatMap, mem_getStreamOutput]

def Listed (s : Server) (k : Text) : Prop := ∃ j sh, s.shoveys.lookup j = some sh ∧ ∃ n ∈ sh.nodeNames, sh.runID ++ n = k

lemma runs_restored_iff (formats : Formats) :
    (∃ t, (objects (runJSON formats) s.allShoveyRuns).foldlM (importRun formats) ∅ = .ok t ∧
      ∀ k, t.lookup k = s.runs.lookup k) ↔
    ∀ k sr, s.runs.lookup k = some sr → sr.shoveyUUID ++ sr.nodeName = k ∧ Listed s k := by
  have hv : ∀ sr ∈ s.allShoveyRuns, ∃ k, s.runs.lookup k = some sr := by
    intro sr hsr
    obtain ⟨-, sh, n, -, -, hr⟩ := mem_allShoveyRuns.mp hsr
    exact ⟨_, hr⟩
  refine (Table.Reader.restored_iff_values (R := runs formats) (fun _ _ => Iff.rfl) (fun _ _ => rfl)
    (fun _ _ => rfl) hv id).trans ?_
  constructor
  · intro h k sr hsr
    obtain ⟨hm, hk, -⟩ := h k sr hsr
    obtain ⟨j, sh, n, hsh, hn, hr⟩ := mem_allShoveyRuns.mp hm
    obtain ⟨-, hk', -⟩ := h _ sr hr
    exact ⟨hk, j, sh, hsh, n, hn, hk'.symm.trans hk⟩
  · intro h k sr hsr
    obtain ⟨hk, j, sh, hsh, n, hn, rfl⟩ := h k sr hsr
    exact ⟨mem_allShoveyRuns.mpr ⟨j, sh, n, hsh, hn, hsr⟩, hk, rfl⟩

def Written (s : Server) (k : Text) : Prop :=
  ∃ j sr, s.runs.lookup j = some sr ∧ ∃ t ∈ Server.outputTypes, ∃ i, chunkKey sr t i = k ∧
    ∀ m, m < i → (s.streams.lookup (chunkKey sr t m)).isSome = true

lemma streams_restored_iff (formats : Formats) (hr : ∀ k sr, s.runs.lookup k = some sr → Listed s k) :
    (∃ t, (objects (streamJSON formats) s.allShoveyRunStreams).foldlM (importStream formats) ∅ = .ok t ∧
      ∀ k, t.lookup k = s.streams.lookup k) ↔
    ∀ k srs, s.streams.lookup k = some srs → ofStream srs = k ∧ Text.Fits srs.seq ∧ Written s k := by
  have hv : ∀ srs ∈ s.allShoveyRunStreams, ∃ k, s.streams.lookup k = some srs := by
    intro srs hs
    obtain ⟨sr, -, t, -, j, -, hj⟩ := mem_allShoveyRunStreams.mp hs
    exact ⟨_, hj⟩
  have hsl : ∀ k srs, ofStream { srs with seq := readInt srs.seq } = k ∧ (streams formats).Makes k srs srs ↔
      ofStream srs = k ∧ Text.Fits srs.seq := by
    intro k srs
    rw [← readInt_eq_self_iff]
    constructor
    · rintro ⟨hk, hm⟩
      have hsq : srs.seq = readInt srs.seq := congrArg ShoveyRunStream.seq hm
      rw [← hsq] at hk
      exact ⟨hk, hsq.symm⟩
    · rintro ⟨hk, hsq⟩
      refine ⟨by rw [hsq, hk], ?_⟩
      change srs = { srs with seq := readInt srs.seq }
      rw [hsq]
  refine (Table.Reader.restored_iff_values (R := streams formats) (fun _ _ => Iff.rfl) (fun _ _ => rfl)
    (fun _ _ => rfl) hv id).trans ?_
  simp only [hsl]
  constructor
  · intro h k srs hs
    obtain ⟨hmm, hk, hf⟩ := h k srs hs
    obtain ⟨sr, hsr, t, ht, j, hb, hj⟩ := mem_allShoveyRunStreams.mp hmm
    obtain ⟨-, sh, n, -, -, hrn⟩ := mem_allShoveyRuns.mp hsr
    obtain ⟨-, hk', -⟩ := h _ srs hj
    exact ⟨hk, hf, _, sr, hrn, t, ht, j, hk'.symm.trans hk, hb⟩
  · intro h k srs hs
    obtain ⟨hk, hf, j, sr, hsr, t, ht, i, rfl, hb⟩ := h k srs hs
    obtain ⟨l, sh, hsh, n, hn, rfl⟩ := hr j sr hsr
    exact ⟨mem_allShoveyRunStreams.mpr ⟨sr, mem_allShoveyRuns.mpr ⟨l, sh, n, hsh, hn, hsr⟩, t, ht, i, hb, hs⟩,
      hk, hf⟩

end

end Goiardi.Dump
