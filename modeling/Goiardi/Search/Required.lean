import Goiardi.Search.Within

/-! The terms of a field group: which documents the required and the prohibited ones are to select, and which ones
`GroupedQuery` returns. -/

namespace Goiardi.Search

open List Finset

section

variable (search : Text → Bool → Except Fault (Finset Text)) (field : Text)

def QueryTerm.matching (v : QueryTerm) : Finset Text := docsOf (search (makeSearchTerm field v.term) false)

def QueryTerm.found (v : QueryTerm) : Finset Text := docsOf (search (makeSearchTerm field v.term) v.mod.negates)

def Meets (terms : List QueryTerm) (k : Text) : Prop :=
  ∀ v ∈ terms, (v.mod = .unaryReq → k ∈ v.matching search field) ∧
    (v.mod.negates = true → k ∉ v.matching search field)

def Selects (terms : List QueryTerm) (k : Text) : Prop :=
  if ∃ v ∈ terms, v.mod = .unaryReq then Meets search field terms k else ∃ v ∈ terms, k ∈ v.found search field

def Exact (run : List QueryTerm → Except Fault (Finset Text)) (terms : List QueryTerm) : Prop :=
  ∃ S, (∀ terms', terms'.Perm terms → run terms' = .ok S) ∧ ∀ k, k ∈ S ↔ Selects search field terms k

/-- No term is required; or the other terms find nothing and nothing meets the required and the prohibited ones. -/
def Harmless (terms : List QueryTerm) : Prop :=
  (∀ v ∈ terms, v.mod ≠ .unaryReq) ∨
    (∀ v ∈ terms, v.mod ≠ .unaryReq → v.found search field = ∅) ∧ ∀ k, ¬ Meets search field terms k

variable {search field} {terms terms' : List QueryTerm} {run : List QueryTerm → Except Fault (Finset Text)}

lemma mem_counting {v : QueryTerm} (h : v ∈ counting terms) : v ∈ terms ∧ v.mod ≠ .unaryReq := by
  rw [counting] at h
  exact ⟨( takeWhile_prefix _).subset h, by simpa using mem_takeWhile_imp h⟩

variable {S : Finset Text} {w : QueryTerm}
  (hrn : ∀ ts, run ts = do return mergeResults (← searchTerms search field ts)) (h : run terms = .ok S)
include hrn h

lemma group_eq (hp : terms'.Perm terms) :
    ∃ T, run terms' = .ok T ∧ ∀ k, k ∈ T ↔ ∃ v ∈ counting terms', k ∈ v.found search field := by
  rw [hrn] at h
  obtain ⟨rs, hrs, -⟩ := bind_ok h
  have hf : ∀ v ∈ terms', search (makeSearchTerm field v.term) v.mod.negates = .ok (v.found search field) := by
    intro v hv
    obtain ⟨T, hT⟩ := searchTerms_ok hrs v (hp.mem_iff.mp hv)
    rw [QueryTerm.found, hT]
    rfl
  refine ⟨mergeResults (terms'.map fun v => (v.mod, v.found search field)), ?_, fun k => mem_mergeResults⟩
  rw [hrn, searchTerms_eq hf]
  rfl

lemma exact_of_plain (hpl : ∀ v ∈ terms, v.mod ≠ .unaryReq) : Exact search field run terms := by
  have hu : ∀ terms', terms'.Perm terms → ∃ T, run terms' = .ok T ∧
      ∀ k, k ∈ T ↔ ∃ v ∈ terms, k ∈ v.found search field := by
    intro terms' hp
    obtain ⟨T, hT, hm⟩ := group_eq hrn h hp
    refine ⟨T, hT, fun k => ?_⟩
    rw [hm, counting, takeWhile_eq_self_iff.mpr fun v hv => decide_eq_true (hpl v (hp.mem_iff.mp hv))]
    simp only [hp.mem_iff]
  obtain ⟨S', hS', hm⟩ := hu terms (.refl _)
  refine ⟨S', fun terms' hp => ?_, fun k => ?_⟩
  · obtain ⟨T, hT, hm'⟩ := hu terms' hp
    rw [hT, Finset.ext fun k => (hm' k).trans (hm k).symm]
  · rw [hm, Selects, if_neg]
    rintro ⟨v, hv, hrq⟩
    exact hpl v hv hrq

lemma exact_of_nothing (hw : w ∈ terms) (hrq : w.mod = .unaryReq)
    (hn : ∀ v ∈ terms, v.mod ≠ .unaryReq → v.found search field = ∅) (hm : ∀ k, ¬ Meets search field terms k) :
    Exact search field run terms := by
  refine ⟨∅, fun terms' hp => ?_, fun k => ?_⟩
  · obtain ⟨T, hT, hmm⟩ := group_eq hrn h hp
    suffices he : T = ∅ by rw [hT, he]
    refine eq_empty_of_forall_notMem fun k hk => ?_
    obtain ⟨v, hv, hkv⟩ := (hmm k).mp hk
    obtain ⟨hv, hpl⟩ := mem_counting hv
    rw [hn v (hp.mem_iff.mp hv) hpl] at hkv
    exact absurd hkv (notMem_empty k)
  · rw [Selects, if_pos ⟨w, hw, hrq⟩]
    exact iff_of_false (notMem_empty k) (hm k)

lemma nothing_of_exact (hw : w ∈ terms) (hr : w.mod = .unaryReq) (hex : Exact search field run terms) :
    (∀ v ∈ terms, v.mod ≠ .unaryReq → v.found search field = ∅) ∧ ∀ k, ¬ Meets search field terms k := by
  obtain ⟨S', hr', hs⟩ := hex
  have hm : ∀ {terms'}, terms'.Perm terms → ∀ k, k ∈ S' ↔ ∃ v ∈ counting terms', k ∈ v.found search field := by
    intro terms' hp k
    obtain ⟨T, hT, hm⟩ := group_eq hrn h hp
    rw [hr' terms' hp] at hT
    obtain rfl : S' = T := Except.ok.inj hT
    exact hm k
  have he : ∀ k, k ∉ S' := by
    intro k hk
    obtain ⟨v, hv, -⟩ := (hm (perm_cons_erase hw).symm k).mp hk
    rw [counting, takeWhile_cons_of_neg (by simp [hr])] at hv
    exact absurd hv not_mem_nil
  refine ⟨fun v hv hpl => eq_empty_of_forall_notMem fun k hk => ?_, fun k hk => ?_⟩
  · refine he k ((hm (perm_cons_erase hv).symm k).mpr ⟨v, ?_, hk⟩)
    rw [counting, takeWhile_cons_of_pos (by simp [hpl])]
    exact .head _
  · exact he k ((hs k).mpr (by rwa [Selects, if_pos ⟨w, hw, hr⟩]))

lemma exact_iff_harmless : Exact search field run terms ↔ Harmless search field terms := by
  by_cases hr : ∃ w ∈ terms, w.mod = .unaryReq
  · obtain ⟨w, hw, hr⟩ := hr
    constructor
    · exact fun he => .inr (nothing_of_exact hrn h hw hr he)
    · rintro (hp | ⟨hn, hm⟩)
      · exact absurd hr (hp w hw)
      · exact exact_of_nothing hrn h hw hr hn hm
  · have hp : ∀ v ∈ terms, v.mod ≠ .unaryReq := fun v hv hv' => hr ⟨v, hv, hv'⟩
    exact iff_of_true (exact_of_plain hrn h hp) (.inl hp)

end

section

variable (lib : Library) (i : FileIndex) (idx field : Text) (terms : List QueryTerm) (complete notop : Bool)

/-- A field group selects what its modifiers say, in the whole index and within documents gathered before, exactly if
no term of it is required or there is nothing to find. -/
theorem grouped_exact_iff : (∀ S, (Query.grouped field terms complete).searchIndex lib i idx notop = .ok S →
      (Exact (i.search lib idx) field (fun ts => (Query.grouped field ts complete).searchIndex lib i idx notop) terms ↔
        Harmless (i.search lib idx) field terms)) ∧
    ∀ D S, (Query.grouped field terms complete).searchResults lib i idx notop D = .ok S →
      (Exact (fun term notop => i.searchResults lib idx term notop D) field
          (fun ts => (Query.grouped field ts complete).searchResults lib i idx notop D) terms ↔
        Harmless (fun term notop => i.searchResults lib idx term notop D) field terms) :=
  ⟨fun _ h => exact_iff_harmless (fun _ => rfl) h, fun _ _ h => exact_iff_harmless (fun _ => rfl) h⟩

end

theorem grouped_exact_iff_plain : Exact (twoNodeIndex.search asciiLibrary "node") ['a']
      (fun ts => (Query.grouped ['a'] ts true).searchIndex asciiLibrary twoNodeIndex "node" false)
      [⟨['1'], .notAnOp⟩, ⟨['2'], .unaryPro⟩] :=
  ((grouped_exact_iff asciiLibrary twoNodeIndex "node" ['a'] [⟨['1'], .notAnOp⟩, ⟨['2'], .unaryPro⟩] true
    false).1 {['m'], ['n']} (by decide +kernel)).mpr (.inl (by decide))

theorem grouped_required_missed : Meets (twoNodeIndex.search asciiLibrary "node") ['a'] [⟨['1'], .unaryReq⟩] ['m'] ∧
    (Query.grouped ['a'] [⟨['1'], .unaryReq⟩] true).searchIndex asciiLibrary twoNodeIndex "node" false = .ok ∅ ∧
    (Query.grouped ['a'] [⟨['1'], .notAnOp⟩, ⟨['2'], .unaryReq⟩] true).searchIndex asciiLibrary twoNodeIndex
      "node" false = .ok {['m']} ∧
    (Query.grouped ['a'] [⟨['2'], .unaryReq⟩, ⟨['1'], .notAnOp⟩] true).searchIndex asciiLibrary twoNodeIndex
      "node" false = .ok ∅ := by
  unfold Meets
  decide +kernel

end Goiardi.Search
