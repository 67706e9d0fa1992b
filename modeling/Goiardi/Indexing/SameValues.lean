import Goiardi.Indexing.Lines
import Goiardi.Search.Insertion

/-! Exact, wildcard and range search over the document that `update` builds of a flattened object. -/

namespace Goiardi.Indexing

open Search Automaton List

section

variable {lib : Library} {doc : IdxDoc} {trie : Node} {f v key re : Text}

lemma exactSearch_iff (hd : doc.trie = .ok trie) : doc.exactSearch v = .ok true ↔ trie.accepts v = true := by
  rw [IdxDoc.exactSearch, hd, orError, ok_bind]
  simp [Pure.pure, Except.pure]

def Shown (trie : Node) (f v : Text) : Prop :=
  v ≠ [] ∧ trie.accepts (indexLine f v) = true ∧ ∀ p, p <+: v → p ≠ v → trie.accepts (indexLine f p) = false

lemma shown_iff (hp : trie.Proper) : Shown trie f v ↔ ∃ n, trie.hasPrefix (f ++ [':']) = some n ∧ v ∈ n.childKeys := by
  have hl (u : Text) : indexLine f u = (f ++ [':']) ++ u := by simp [indexLine]
  constructor
  · rintro ⟨hv, ha, hf⟩
    obtain ⟨n, hn⟩ := Node.hasPrefix_of_accepts (hl v ▸ ha)
    refine ⟨n, hn, (Node.mem_childKeys (hp.hasPrefix hn)).mpr ⟨hv, ?_, fun p hpr hne => ?_⟩⟩
    · rw [← Node.accepts_append hn, ← hl]
      exact ha
    · rw [← Node.accepts_append hn, ← hl]
      exact hf p hpr hne
  · rintro ⟨n, hn, hv⟩
    obtain ⟨hv, ha, hf⟩ := (Node.mem_childKeys (hp.hasPrefix hn)).mp hv
    refine ⟨hv, ?_, fun p hpr hne => ?_⟩
    · rw [hl, Node.accepts_append hn]
      exact ha
    · rw [hl, Node.accepts_append hn]
      exact hf p hpr hne

lemma rangeSearch_self_iff (hd : doc.trie = .ok trie) (hp : trie.Proper) :
    doc.rangeSearch f v v true false = .ok true ↔ v ≠ ['*'] ∧ Shown trie f v := by
  rw [IdxDoc.rangeSearch, shown_iff hp, hd]
  by_cases hw : v = ['*']
  · simp [hw]
  · rw [if_neg (by simp [hw]), orError, ok_bind]
    have ht (child : Text) : IdxDoc.rangeTest v v true false child = true ↔ child = v := by
      simp only [IdxDoc.rangeTest, hw, if_false, Bool.and_eq_true, decide_eq_true_eq]
      exact ⟨fun h => h.2.antisymm h.1, fun h => ⟨h.ge, h.le⟩⟩
    cases trie.hasPrefix (f ++ [':']) with
    | none => simp [hw, Pure.pure, Except.pure]
    | some n => simp [hw, ht, Pure.pure, Except.pure]

def expression (re : Text) : Text :=
  replaceAll '?' ".?" (replaceAll '*' ".*" (replaceAll '.' "\\." re))

lemma regexSearch_iff (hd : doc.trie = .ok trie) (hp : trie.Proper) (ht : splitColon v = some (key, re)) :
    doc.regexSearch lib v = .ok true ↔ ∃ m u, lib.compile (expression re) = .ok m ∧ Shown trie key u ∧ m u = true := by
  have hs (u : Text) := shown_iff (f := key) (v := u) hp
  rw [IdxDoc.regexSearch, ht]
  simp only [hs]
  change (orError (lib.compile (expression re)) >>= _) = _ ↔ _
  cases lib.compile (expression re) with
  | error e => simp [orError]
  | ok m =>
    simp only [orError, ok_bind, hd]
    cases trie.hasPrefix (key ++ [':']) with
    | none => simp [Pure.pure, Except.pure]
    | some n => simp [Pure.pure, Except.pure]

end

section

variable {lib : Library} {trim : ℤ} {flat : Flattened} {f v w l : Text}

def Flattened.indexed (flat : Flattened) (trim : ℤ) (f : Text) : List Text :=
  (flat.values f).map (trimStringMax · trim)

structure SearchesAgree (lib : Library) (flat : Flattened) (trim : ℤ) : Prop where
  found : ∀ f v, v ∈ flat.indexed trim f → ∃ doc, build (indexify trim flat) = .ok doc ∧
    doc.exactSearch (indexLine f v) = .ok true ∧ doc.regexSearch lib (indexLine f ['*']) = .ok true ∧
      doc.rangeSearch f v v true false = .ok true
  only : ∀ f ∈ flat, ∀ w doc, build (indexify trim flat) = .ok doc →
    doc.exactSearch (indexLine f w) = .ok true → w ∈ flat.indexed trim f

/-- No two values give one line, every line that starts with a field and a colon is one of that field, and no value of
a field is empty, a lone `*` or continued by another. A wildcard search takes a field up to its first colon and the
rest as an expression, which is to match the rest of some line. -/
structure Separate (lib : Library) (flat : Flattened) (trim : ℤ) : Prop where
  distinct : flat.Distinct trim
  owned : ∀ f ∈ flat, ∀ w, flat.HasLine trim (indexLine f w) → w ∈ flat.indexed trim f
  plain : ∀ f, ∀ v ∈ flat.indexed trim f, v ≠ [] ∧ v ≠ ['*']
  apart : ∀ f, ∀ v ∈ flat.indexed trim f, ∀ w ∈ flat.indexed trim f, v <+: w → v = w
  wild : ∀ f key re, flat.indexed trim f ≠ [] → ':' ∈ f → splitColon (indexLine f ['*']) = some (key, re) →
    ∃ m u, lib.compile (expression re) = .ok m ∧ u ≠ [] ∧ flat.HasLine trim (indexLine key u) ∧ m u = true

lemma hasLine_iff : flat.HasLine trim l ↔ ∃ f, ∃ v ∈ flat.indexed trim f, l = indexLine f v := by
  constructor
  · rintro ⟨f, v, hv, rfl⟩
    exact ⟨f, _, mem_map_of_mem hv, rfl⟩
  · rintro ⟨f, v, hv, rfl⟩
    obtain ⟨u, hu, rfl⟩ := mem_map.mp hv
    exact ⟨f, u, hu, rfl⟩

lemma mem_of_indexed (hv : v ∈ flat.indexed trim f) : f ∈ flat := by
  obtain ⟨u, hu, -⟩ := mem_map.mp hv
  obtain ⟨e, he, rfl, -⟩ := Flattened.mem_values.mp hu
  exact AList.mem_keys.mpr (mem_map_of_mem he)

lemma splitColon_append {t : Text} (hf : ':' ∉ f) : splitColon (f ++ ':' :: t) = some (f, t) := by
  induction f with
  | nil => rfl
  | cons c f ih =>
    have hc : c ≠ ':' := fun he => hf (he ▸ mem_cons_self ..)
    rw [cons_append, splitColon, if_neg hc, ih fun h => hf (.tail _ h)]
    rfl

lemma splitColon_line (f : Text) : ∃ key re, splitColon (indexLine f ['*']) = some (key, re) := by
  induction f with
  | nil => exact ⟨_, _, rfl⟩
  | cons c f ih =>
    obtain ⟨key, re, h⟩ := ih
    by_cases hc : c = ':'
    · exact ⟨[], _, by rw [indexLine, cons_append, splitColon, if_pos hc]⟩
    · refine ⟨c :: key, re, ?_⟩
      rw [indexLine] at h
      rw [indexLine, cons_append, splitColon, if_neg hc, h]
      rfl

lemma build_indexify (hc : Heap.Closed (indexify trim flat)) (hv : v ∈ flat.indexed trim f) :
    ∃ doc trie, build (indexify trim flat) = .ok doc ∧ doc.trie = .ok trie ∧ trie.Proper ∧
      ∀ x, trie.accepts x = true ↔ flat.HasLine trim x ∨ ∃ c, List.Duplicate (x ++ [c]) (indexify trim flat) := by
  have hln : indexLine f v ∈ indexify trim flat := mem_indexify.mpr (hasLine_iff.mpr ⟨f, v, hv, rfl⟩)
  have hne : ∀ l ∈ indexify trim flat, l ≠ [] := by
    intro l hl
    obtain ⟨g, u, -, rfl⟩ := mem_indexify.mp hl
    simp [indexLine]
  obtain ⟨hp, -, ha⟩ := Node.ofWords_spec (pairwise_indexify trim flat) hne
  refine ⟨_, _, build_of_words (ne_nil_of_mem hln) (pairwise_indexify trim flat) hne hc, rfl, hp, ?_⟩
  intro x
  rw [ha, mem_indexify]

namespace Separate

lemma nodup (h : Separate lib flat trim) : (indexify trim flat).Nodup := nodup_indexify_iff.mpr h.distinct

lemma closed (h : Separate lib flat trim) : Heap.Closed (indexify trim flat) :=
  fun _ _ hd => absurd hd (nodup_iff_forall_not_duplicate.mp h.nodup _)

lemma eq_of_prefix (h : Separate lib flat trim) {k : Text} (hl : flat.HasLine trim k) (hl' : flat.HasLine trim l)
    (hp : k <+: l) : k = l := by
  obtain ⟨f, v, hv, rfl⟩ := hasLine_iff.mp hl
  obtain ⟨t, rfl⟩ := hp
  have hln : indexLine f v ++ t = indexLine f (v ++ t) := by simp [indexLine]
  rw [hln] at hl' ⊢
  exact congrArg (indexLine f) (h.apart f v hv _ (h.owned f (mem_of_indexed hv) _ hl') (prefix_append v t))

lemma shown (h : Separate lib flat trim) {trie : Node} (ha : ∀ x, trie.accepts x = true ↔ flat.HasLine trim x)
    (hl : flat.HasLine trim (indexLine f v)) (hv : v ≠ []) : Shown trie f v := by
  refine ⟨hv, (ha _).mpr hl, fun p hpr hne => ?_⟩
  rw [← Bool.not_eq_true, ha]
  intro hp
  have hs : indexLine f p = indexLine f v :=
    h.eq_of_prefix hp hl ((prefix_append_right_inj f).mpr (cons_prefix_cons.mpr ⟨rfl, hpr⟩))
  exact hne (List.cons.inj (append_cancel_left hs)).2

lemma build (h : Separate lib flat trim) (hv : v ∈ flat.indexed trim f) :
    ∃ doc trie, build (indexify trim flat) = .ok doc ∧ doc.trie = .ok trie ∧ trie.Proper ∧
      ∀ x, trie.accepts x = true ↔ flat.HasLine trim x := by
  obtain ⟨doc, trie, hb, hd, hp, ha⟩ := build_indexify h.closed hv
  refine ⟨doc, trie, hb, hd, hp, fun x => (ha x).trans (or_iff_left ?_)⟩
  rintro ⟨c, hdp⟩
  exact nodup_iff_forall_not_duplicate.mp h.nodup _ hdp

lemma searchesAgree (h : Separate lib flat trim) (hlb : lib.compile ".*" = .ok fun _ => true) :
    SearchesAgree lib flat trim := by
  constructor
  · intro f v hv
    obtain ⟨doc, trie, hb, hd, hp, ha⟩ := h.build hv
    have hl := hasLine_iff.mpr ⟨f, v, hv, rfl⟩
    obtain ⟨hne, hw⟩ := h.plain f v hv
    refine ⟨doc, hb, (exactSearch_iff hd).mpr ((ha _).mpr hl), ?_,
      (rangeSearch_self_iff hd hp).mpr ⟨hw, h.shown ha hl hne⟩⟩
    by_cases hc : ':' ∈ f
    · obtain ⟨key, re, hs⟩ := splitColon_line f
      obtain ⟨m, u, hm, hu, hr, hmt⟩ := h.wild f key re (ne_nil_of_mem hv) hc hs
      exact (regexSearch_iff hd hp hs).mpr ⟨m, u, hm, h.shown ha hr hu, hmt⟩
    · exact (regexSearch_iff hd hp (splitColon_append hc)).mpr ⟨_, v, hlb, h.shown ha hl hne, rfl⟩
  · intro f hf w doc hb he
    cases hln : indexify trim flat with
    | nil =>
      rw [hln] at hb
      cases hb
    | cons l lines =>
      obtain ⟨g, v, hv, -⟩ := hasLine_iff.mp (mem_indexify.mp (hln ▸ mem_cons_self ..))
      obtain ⟨doc', trie, hb', hd, -, ha⟩ := h.build hv
      obtain rfl := Except.ok.inj (hb.symm.trans hb')
      exact h.owned f hf w ((ha _).mp ((exactSearch_iff hd).mp he))

end Separate

lemma SearchesAgree.separate (h : SearchesAgree lib flat trim) (hc : Heap.Closed (indexify trim flat)) :
    Separate lib flat trim := by
  -- one document, which shows every value below its field
  have hd (f v : Text) (hv : v ∈ flat.indexed trim f) : ∃ doc trie, build (indexify trim flat) = .ok doc ∧
      doc.trie = .ok trie ∧ trie.Proper ∧ doc.regexSearch lib (indexLine f ['*']) = .ok true ∧
      (∀ x, trie.accepts x = true ↔ flat.HasLine trim x ∨ ∃ c, List.Duplicate (x ++ [c]) (indexify trim flat)) ∧
      doc.exactSearch (indexLine f v) = .ok true ∧ v ≠ ['*'] ∧ Shown trie f v := by
    obtain ⟨doc, trie, hb, ht, hp, ha⟩ := build_indexify hc hv
    obtain ⟨doc', hb', hex, hr, hrn⟩ := h.found f v hv
    obtain rfl := Except.ok.inj (hb.symm.trans hb')
    exact ⟨doc, trie, hb, ht, hp, hr, ha, hex, (rangeSearch_self_iff ht hp).mp hrn⟩
  have hn : (indexify trim flat).Nodup := by
    refine nodup_iff_forall_not_duplicate.mpr fun l hdp => ?_
    obtain ⟨f, v, hv, rfl⟩ := hasLine_iff.mp (mem_indexify.mp hdp.mem)
    obtain ⟨-, trie, -, -, -, -, ha, -, -, hne, -, hfr⟩ := hd f v hv
    have hi : v.dropLast ≠ v := by
      intro he
      have hlg := congrArg List.length he
      have hps := length_pos_of_ne_nil hne
      rw [length_dropLast] at hlg
      omega
    have her : trie.accepts (indexLine f v.dropLast) = true := by
      refine (ha _).mpr (.inr ⟨v.getLast hne, ?_⟩)
      rw [indexLine, append_assoc, cons_append, dropLast_append_getLast hne]
      exact hdp
    exact absurd her (Bool.not_eq_true _ ▸ hfr _ ( dropLast_prefix v) hi)
  refine ⟨nodup_indexify_iff.mp hn, fun f hf w hl => ?_, fun f v hv => ?_, fun f v hv w hw hpr => ?_,
    fun f key re hf _ hs => ?_⟩
  · obtain ⟨g, v, hv, hln⟩ := hasLine_iff.mp hl
    obtain ⟨doc, -, hb, -, -, -, -, hex, -⟩ := hd g v hv
    exact h.only f hf w doc hb (hln ▸ hex)
  · obtain ⟨-, -, -, -, -, -, -, -, hwl, hne, -⟩ := hd f v hv
    exact ⟨hne, hwl⟩
  · obtain ⟨-, trie, -, -, -, -, ha, -, -, -, -, hfr⟩ := hd f w hw
    by_contra hne
    have hln := (ha (indexLine f v)).mpr (.inl (hasLine_iff.mpr ⟨f, v, hv, rfl⟩))
    exact absurd hln (Bool.not_eq_true _ ▸ hfr v hpr hne)
  · obtain ⟨v, hv⟩ := exists_mem_of_ne_nil _ hf
    obtain ⟨doc, trie, -, ht, hp, hr, ha, -⟩ := hd f v hv
    obtain ⟨m, u, hm, ⟨hu, hac, -⟩, hmt⟩ := (regexSearch_iff ht hp hs).mp hr
    refine ⟨m, u, hm, hu, ((ha _).mp hac).resolve_right ?_, hmt⟩
    rintro ⟨c, hdp⟩
    exact nodup_iff_forall_not_duplicate.mp hn _ hdp

def anyLibrary : Library := ⟨fun _ => true, fun _ => .ok fun _ => true⟩

def oneField : Flattened := .of [("a", .text ['1'])]

lemma mem_oneField (hv : v ∈ oneField.values f) : f = ['a'] ∧ v = ['1'] := by
  obtain ⟨e, he, rfl, hv⟩ := Flattened.mem_values.mp hv
  have hen : oneField.entries = [⟨['a'], .text ['1']⟩] := rfl
  rw [hen, mem_singleton] at he
  subst he
  exact ⟨rfl, mem_singleton.mp hv⟩

end

end Goiardi.Indexing
