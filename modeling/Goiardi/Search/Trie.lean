import Goiardi.Search.Index

/-! Tries as trees: how a sorted list of words is put into one, and what is read from it. -/

namespace Goiardi.Search

open List Option

section

variable {α : Type} {ts : List (Char × α)} {c : Char} {a : α}

def Increasing (ts : List (Char × α)) : Prop := ts.Pairwise fun t u => t.1 < u.1

lemma mem_of_findTransition (h : findTransition ts c = some a) : (c, a) ∈ ts := by
  rw [findTransition] at h
  split at h
  · next label child hg =>
    split at h
    · next hl =>
      cases h
      exact hl ▸ mem_of_getElem? hg
    · cases h
  · cases h

lemma findTransition_eq_none (h : ∀ t ∈ ts, t.1 ≠ c) : findTransition ts c = none := by
  cases hf : findTransition ts c with
  | none => rfl
  | some a => exact absurd rfl (h _ (mem_of_findTransition hf))

lemma findTransition_of_mem (hts : Increasing ts) (h : (c, a) ∈ ts) : findTransition ts c = some a := by
  have hs := searchBy_splits (p := fun t : Char × α => decide (c ≤ t.1)) (l := ts)
    (hts.imp fun hlt hc => by simpa using (of_decide_eq_true hc).trans hlt.le)
  obtain ⟨k, hk, hg⟩ := mem_iff_getElem.mp h
  set r := searchBy (fun t : Char × α => decide (c ≤ t.1)) ts with hr
  have hle : r ≤ k := by
    by_contra! hlt
    have hf := hs.below k hlt
    rw [List.getElem?_eq_getElem hk, hg] at hf
    simp at hf
  have hrk : r = k := by
    rcases hle.eq_or_lt with heq | hlt
    · exact heq
    · have hl : r < ts.length := by omega
      have ht := hs.above r le_rfl hl
      rw [List.getElem?_eq_getElem hl, any_some, decide_eq_true_eq] at ht
      have hb := pairwise_iff_getElem.mp hts r k hl hk hlt
      rw [hg] at hb
      exact absurd hb (not_lt.mpr ht)
  rw [findTransition, ← hr, hrk, List.getElem?_eq_getElem hk, hg]
  simp

lemma findTransition_iff (hts : Increasing ts) : findTransition ts c = some a ↔ (c, a) ∈ ts :=
  ⟨mem_of_findTransition, findTransition_of_mem hts⟩

lemma findTransition_singleton : findTransition [(c, a)] c = some a :=
  findTransition_of_mem (by simp [Increasing]) (by simp)

variable {init : List (Char × α)} {d : Char}

lemma increasing_concat : Increasing (init ++ [(d, a)]) ↔ Increasing init ∧ ∀ t ∈ init, t.1 < d := by
  simp [Increasing, pairwise_append]

lemma findTransition_last (hts : Increasing (init ++ [(d, a)])) : findTransition (init ++ [(d, a)]) d = some a :=
  findTransition_of_mem hts (by simp)

end

namespace Node

variable {n child : Node} {t : Bool} {ts : List (Char × Node)} {c : Char} {w u x : Text}

@[simp] lemma accepts_nil : (mk t ts).accepts [] = t := rfl

lemma accepts_cons : (mk t ts).accepts (c :: w) = (findTransition ts c).elim false fun child => child.accepts w := by
  rw [accepts, hasPrefix, getChild, transitions]
  cases findTransition ts c <;> rfl

inductive Proper : Node → Prop
  | intro {t : Bool} {ts : List (Char × Node)} (labels : Increasing ts) (below : ∀ u ∈ ts, u.2.Proper)
      (live : ∀ u ∈ ts, u.2.terminal = true ∨ u.2.transitions ≠ []) : Proper (mk t ts)

lemma Proper.labels_increasing (h : (mk t ts).Proper) : Increasing ts := by
  cases h with
  | intro labels below live => exact labels

lemma Proper.of_mem (h : (mk t ts).Proper) (hc : (c, child) ∈ ts) : child.Proper := by
  cases h with
  | intro labels below live => exact below _ hc

lemma Proper.terminal_or (h : (mk t ts).Proper) (hc : (c, child) ∈ ts) :
    child.terminal = true ∨ child.transitions ≠ [] := by
  cases h with
  | intro labels below live => exact live _ hc

section

def chain : Text → Node
  | [] => mk true []
  | c :: w => mk false [(c, chain w)]

/-- How a word is put into a trie whose words are not above it: below the last transitions. A word that is there
already is marked one node too early. -/
def insert : Node → Text → Node
  | n, [] => n
  | mk t ts, c :: letters =>
    match findTransition ts c with
    | none => mk t (ts ++ [(c, chain letters)])
    | some child =>
      if letters = [] then mk true ts else mk t (ts.dropLast ++ [(c, child.insert letters)])

def ofWords (words : List Text) : Node := words.foldl insert (mk false [])

def Latest : Node → Text → Prop
  | n, [] => n.transitions = []
  | n, c :: w => ∃ init child, n.transitions = init ++ [(c, child)] ∧ child.Latest w

lemma accepts_chain : (chain w).accepts x = true ↔ x = w := by
  induction w generalizing x with
  | nil =>
    cases x with
    | nil => simp [chain]
    | cons d x => simp [chain, accepts_cons, findTransition_eq_none]
  | cons c w ih =>
    cases x with
    | nil => simp [chain]
    | cons d x =>
      rw [chain, accepts_cons]
      by_cases hd : d = c
      · subst hd
        rw [findTransition_singleton, elim_some, ih]
        simp
      · rw [findTransition_eq_none (by simpa using fun h => hd h.symm)]
        simp [hd]

lemma chain_live : (chain w).terminal = true ∨ (chain w).transitions ≠ [] := by
  cases w with
  | nil => exact .inl rfl
  | cons c w => exact .inr (by simp [chain, transitions])

lemma proper_chain : (chain w).Proper := by
  induction w with
  | nil => exact .intro (by simp [Increasing]) (by simp) (by simp)
  | cons c w ih => exact .intro (by simp [Increasing]) (by simpa using ih) (by simpa using chain_live)

lemma latest_chain : (chain w).Latest w := by
  induction w with
  | nil => rfl
  | cons c w ih => exact ⟨[], chain w, rfl, ih⟩

lemma insert_live (h : n.terminal = true ∨ n.transitions ≠ []) :
    (n.insert u).terminal = true ∨ (n.insert u).transitions ≠ [] := by
  cases n with
  | mk t ts =>
    cases u with
    | nil => exact h
    | cons c u =>
      rw [insert]
      split
      · exact .inr (by simp [transitions])
      · split
        · exact .inl rfl
        · exact .inr (by simp [transitions])

variable {init : List (Char × Node)}

lemma Proper.concat (h : (mk t init).Proper) (hc : ∀ v ∈ init, v.1 < c) (hch : child.Proper)
    (hl : child.terminal = true ∨ child.transitions ≠ []) : (mk t (init ++ [(c, child)])).Proper := by
  cases h with
  | intro labels below live =>
    refine .intro (increasing_concat.mpr ⟨labels, hc⟩) ?_ ?_
    all_goals
      intro v hv
      rcases mem_append.mp hv with hv | hv
    · exact below v hv
    · rw [mem_singleton.mp hv]
      exact hch
    · exact live v hv
    · rw [mem_singleton.mp hv]
      exact hl

lemma Proper.of_concat (h : (mk t (init ++ [(c, child)])).Proper) : (mk t init).Proper := by
  cases h with
  | intro labels below live =>
    exact .intro (increasing_concat.mp labels).1 (fun v hv => below v (mem_append_left _ hv))
      fun v hv => live v (mem_append_left _ hv)

lemma accepts_concat (hi : Increasing (init ++ [(c, child)])) {d : Char} :
    (mk t (init ++ [(c, child)])).accepts (d :: x) = true ↔
      (mk t init).accepts (d :: x) = true ∨ d = c ∧ child.accepts x = true := by
  obtain ⟨hin, hb⟩ := increasing_concat.mp hi
  rw [accepts_cons, accepts_cons]
  by_cases hd : d = c
  · subst hd
    rw [findTransition_last hi, findTransition_eq_none fun v hv => (hb v hv).ne]
    simp
  · have hs : findTransition (init ++ [(c, child)]) d = findTransition init d := by
      ext a
      rw [findTransition_iff hi, findTransition_iff hin]
      simp [hd]
    rw [hs]
    simp [hd]

lemma insert_above (ha : ∀ v ∈ ts, v.1 < c) : (mk t ts).insert (c :: u) = mk t (ts ++ [(c, chain u)]) := by
  rw [insert, findTransition_eq_none fun v hv => (ha v hv).ne]

lemma insert_last (hi : Increasing (init ++ [(c, child)])) (hu : u ≠ []) :
    (mk t (init ++ [(c, child)])).insert (c :: u) = mk t (init ++ [(c, child.insert u)]) := by
  rw [insert, findTransition_last hi]
  simp [hu]

lemma insert_end (hi : Increasing (init ++ [(c, child)])) :
    (mk t (init ++ [(c, child)])).insert [c] = mk true (init ++ [(c, child)]) := by
  rw [insert, findTransition_last hi]
  simp

lemma insert_new (hp : n.Proper) (hl : n.Latest w) (hw : w < u) : (n.insert u).Proper ∧ (n.insert u).Latest u ∧
      ∀ x, (n.insert u).accepts x = true ↔ n.accepts x = true ∨ x = u := by
  induction u generalizing n w with
  | nil => exact absurd hw (not_lt_nil _)
  | cons c u ih =>
    cases n with
    | mk t ts =>
      -- a branch of its own, after all others
      have hb (ha : ∀ v ∈ ts, v.1 < c) :
          ((mk t ts).insert (c :: u)).Proper ∧ ((mk t ts).insert (c :: u)).Latest (c :: u) ∧
            ∀ x, ((mk t ts).insert (c :: u)).accepts x = true ↔ (mk t ts).accepts x = true ∨ x = c :: u := by
        rw [insert_above ha]
        have hpr := hp.concat ha proper_chain (chain_live (w := u))
        refine ⟨hpr, ⟨ts, chain u, rfl, latest_chain⟩, fun x => ?_⟩
        cases x with
        | nil => simp
        | cons d x =>
          rw [accepts_concat hpr.labels_increasing, accepts_chain]
          simp
      cases w with
      | nil =>
        have hts : ts = [] := hl
        exact hb (by simp [hts])
      | cons d w =>
        obtain ⟨init, child, hts, hc⟩ := hl
        obtain rfl : ts = init ++ [(d, child)] := hts
        have hi := hp.labels_increasing
        obtain ⟨hin, hbl⟩ := increasing_concat.mp hi
        rcases cons_lt_cons_iff.mp hw with hdc | ⟨rfl, hwu⟩
        · apply hb
          intro v hv
          rcases mem_append.mp hv with hv | hv
          · exact (hbl v hv).trans hdc
          · rw [mem_singleton.mp hv]
            exact hdc
        · have hu : u ≠ [] := by
            rintro rfl
            exact absurd hwu (not_lt_nil _)
          obtain ⟨hpr, hlt, hac⟩ := ih (hp.of_mem (c := d) (by simp)) hc hwu
          have hn : (mk t (init ++ [(d, child.insert u)])).Proper :=
            hp.of_concat.concat hbl hpr (insert_live (hp.terminal_or (c := d) (by simp)))
          rw [insert_last hi hu]
          refine ⟨hn, ⟨init, _, rfl, hlt⟩, fun x => ?_⟩
          cases x with
          | nil => simp
          | cons e x =>
            rw [accepts_concat hn.labels_increasing, accepts_concat hi, hac]
            simp only [List.cons.injEq]
            tauto

lemma insert_again (hp : n.Proper) (hl : n.Latest w) (hw : w ≠ []) : (n.insert w).Proper ∧ (n.insert w).Latest w ∧
      ∀ x, (n.insert w).accepts x = true ↔ n.accepts x = true ∨ x = w.dropLast := by
  induction w generalizing n with
  | nil => exact absurd rfl hw
  | cons c w ih =>
    cases n with
    | mk t ts =>
      obtain ⟨init, child, hts, hc⟩ := hl
      obtain rfl : ts = init ++ [(c, child)] := hts
      have hi := hp.labels_increasing
      by_cases hne : w = []
      · subst hne
        rw [insert_end hi]
        refine ⟨?_, ⟨init, child, rfl, hc⟩, fun x => ?_⟩
        · cases hp with
          | intro labels below live => exact .intro labels below live
        · cases x with
          | nil => simp
          | cons d x => simp [accepts_cons]
      · obtain ⟨hpr, hlt, ha⟩ := ih (hp.of_mem (c := c) (by simp)) hc hne
        have hn : (mk t (init ++ [(c, child.insert w)])).Proper :=
          hp.of_concat.concat (increasing_concat.mp hi).2 hpr (insert_live (hp.terminal_or (c := c) (by simp)))
        rw [insert_last hi hne, dropLast_cons_of_ne_nil hne]
        refine ⟨hn, ⟨init, _, rfl, hlt⟩, fun x => ?_⟩
        cases x with
        | nil => simp
        | cons e x =>
          rw [accepts_concat hn.labels_increasing, accepts_concat hi, ha]
          simp only [List.cons.injEq]
          tauto

lemma duplicate_concat {α : Type} [DecidableEq α] {a b : α} {l : List α} :
    List.Duplicate a (l ++ [b]) ↔ List.Duplicate a l ∨ a = b ∧ b ∈ l := by
  rw [duplicate_iff_two_le_count, duplicate_iff_two_le_count, count_append, count_singleton]
  by_cases hab : a = b
  · rw [hab, ← one_le_count_iff, beq_self_eq_true, if_pos rfl, eq_self_iff_true, true_and]
    omega
  · have hne : (b == a) = false := by simpa using fun h => hab h.symm
    simp [hab, hne]

lemma ofWords_concat (words : List Text) (u : Text) : ofWords (words ++ [u]) = (ofWords words).insert u := by
  simp [ofWords]

lemma le_getLastD {words : List Text} (hs : words.Pairwise (· ≤ ·)) (hu : u ∈ words) : u ≤ words.getLastD [] := by
  cases words using List.reverseRecOn with
  | nil => cases hu
  | append_singleton words v =>
    rw [getLastD_concat]
    rcases mem_append.mp hu with hu | hu
    · exact (pairwise_append.mp hs).2.2 u hu v (by simp)
    · rw [mem_singleton.mp hu]

lemma last_le_or {words : List Text} (hs : (words ++ [u]).Pairwise (· ≤ ·)) (hu : u ≠ []) :
    u ∈ words ∧ words.getLastD [] = u ∨ u ∉ words ∧ words.getLastD [] < u := by
  obtain ⟨hw, -, hb⟩ := pairwise_append.mp hs
  have hle : words.getLastD [] ≤ u := by
    cases words using List.reverseRecOn with
    | nil => exact not_lt.mp (not_lt_nil u)
    | append_singleton words v =>
      rw [getLastD_concat]
      exact hb v (by simp) u (by simp)
  by_cases hm : u ∈ words
  · exact .inl ⟨hm, hle.antisymm (le_getLastD hw hm)⟩
  · refine .inr ⟨hm, hle.lt_of_ne ?_⟩
    rintro rfl
    cases words using List.reverseRecOn with
    | nil => exact hu rfl
    | append_singleton words v => exact hm (by simp)

lemma ofWords_spec {words : List Text} (hs : words.Pairwise (· ≤ ·)) (hne : ∀ w ∈ words, w ≠ []) :
    (ofWords words).Proper ∧ (ofWords words).Latest (words.getLastD []) ∧
      ∀ x, (ofWords words).accepts x = true ↔ x ∈ words ∨ ∃ c, List.Duplicate (x ++ [c]) words := by
  induction words using List.reverseRecOn with
  | nil =>
    refine ⟨.intro (by simp [Increasing]) (by simp) (by simp), rfl, fun x => ?_⟩
    cases x with
    | nil => simp [ofWords]
    | cons c x => simp [ofWords, accepts_cons, findTransition_eq_none]
  | append_singleton words u ih =>
    obtain ⟨hwr, -, hb⟩ := pairwise_append.mp hs
    obtain ⟨hp, hlt, ha⟩ := ih hwr fun w hw => hne w (mem_append_left _ hw)
    have hu : u ≠ [] := hne u (by simp)
    rw [ofWords_concat, getLastD_concat]
    rcases last_le_or hs hu with ⟨hm, hl⟩ | ⟨hm, hl⟩
    · rw [hl] at hlt
      obtain ⟨hp', hl', ha'⟩ := insert_again hp hlt hu
      refine ⟨hp', hl', fun x => ?_⟩
      have hl (y : Text) : y = u.dropLast ↔ ∃ c, y ++ [c] = u := by
        constructor
        · rintro rfl
          exact ⟨_, dropLast_append_getLast hu⟩
        · rintro ⟨c, rfl⟩
          exact dropLast_concat.symm
      have ht : x = u → x ∈ words := fun h => h ▸ hm
      rw [ha', ha, hl]
      simp only [duplicate_concat, mem_append, mem_singleton, hm, and_true, exists_or]
      tauto
    · obtain ⟨hp', hl', ha'⟩ := insert_new hp hlt hl
      refine ⟨hp', hl', fun x => ?_⟩
      rw [ha', ha]
      simp only [duplicate_concat, mem_append, mem_singleton, hm, and_false, or_false]
      tauto

end

def headed (c : Char) : List Text → List Text
  | [] => [[c]]
  | keys => keys.map (c :: ·)

lemma headed_ne_nil (c : Char) (keys : List Text) : headed c keys ≠ [] := by
  cases keys <;> simp [headed]

lemma mem_headed {d : Char} {keys : List Text} : c :: w ∈ headed d keys ↔ c = d ∧ (keys = [] ∧ w = [] ∨ w ∈ keys) := by
  cases keys with
  | nil => simp [headed]
  | cons k keys =>
    rw [headed, List.mem_map]
    · constructor
      · rintro ⟨u, hu, he⟩
        cases he
        exact ⟨rfl, .inr hu⟩
      · rintro ⟨rfl, hw⟩
        exact ⟨w, hw.resolve_left fun h => cons_ne_nil _ _ h.1, rfl⟩
    · simp

lemma nil_not_mem_headed (keys : List Text) : [] ∉ headed c keys := by
  cases keys <;> simp [headed]

lemma transitionKeys_eq (ts : List (Char × Node)) : transitionKeys ts = ts.flatMap fun v => headed v.1 v.2.childKeys := by
  induction ts with
  | nil => rfl
  | cons v ts ih =>
    obtain ⟨c, n⟩ := v
    rw [transitionKeys, ih, flatMap_cons]
    cases childKeys n <;> rfl

lemma childKeys_mk : (mk t ts).childKeys = if t then [] else ts.flatMap fun v => headed v.1 v.2.childKeys := by
  rw [childKeys, transitionKeys_eq]

lemma nil_not_mem_childKeys : [] ∉ n.childKeys := by
  cases n with
  | mk t ts =>
    rw [childKeys_mk]
    split
    · simp
    · rw [mem_flatMap]
      rintro ⟨v, -, hv⟩
      exact nil_not_mem_headed _ hv

lemma cons_mem_childKeys : c :: w ∈ (mk t ts).childKeys ↔
      t = false ∧ ∃ child, (c, child) ∈ ts ∧ (child.childKeys = [] ∧ w = [] ∨ w ∈ child.childKeys) := by
  rw [childKeys_mk]
  cases t with
  | true => simp
  | false =>
    simp only [Bool.false_eq_true, if_false, true_and, mem_flatMap, mem_headed]
    constructor
    · rintro ⟨⟨d, child⟩, hd, rfl, hw⟩
      exact ⟨child, hd, hw⟩
    · rintro ⟨child, hd, hw⟩
      exact ⟨(c, child), hd, rfl, hw⟩

lemma childKeys_eq_nil_iff (h : n.terminal = true ∨ n.transitions ≠ []) : n.childKeys = [] ↔ n.terminal = true := by
  cases n with
  | mk t ts =>
    rw [childKeys_mk, terminal]
    cases t with
    | true => simp
    | false =>
      obtain ⟨v, ts, rfl⟩ := exists_cons_of_ne_nil (h.resolve_left Bool.false_ne_true)
      simp [headed_ne_nil]

lemma mem_childKeys (hp : n.Proper) :
    w ∈ n.childKeys ↔ w ≠ [] ∧ n.accepts w = true ∧ ∀ p, p <+: w → p ≠ w → n.accepts p = false := by
  induction w generalizing n with
  | nil => simp [nil_not_mem_childKeys]
  | cons c w ih =>
    cases n with
    | mk t ts =>
      have hi := hp.labels_increasing
      rw [cons_mem_childKeys]
      constructor
      · rintro ⟨rfl, child, hc, hw⟩
        have hf := findTransition_of_mem hi hc
        have hb : child.accepts w = true ∧ ∀ p, p <+: w → p ≠ w → child.accepts p = false := by
          rcases hw with ⟨hn, rfl⟩ | hw
          · have ht := (childKeys_eq_nil_iff (hp.terminal_or hc)).mp hn
            cases child with
            | mk t' ts' => exact ⟨ht, fun p hp hne => absurd (prefix_nil.mp hp) hne⟩
          · exact ((ih (hp.of_mem hc)).mp hw).2
        refine ⟨cons_ne_nil _ _, ?_, fun p hpr hne => ?_⟩
        · rw [accepts_cons, hf]
          exact hb.1
        · cases p with
          | nil => rfl
          | cons d p =>
            obtain ⟨rfl, hp'⟩ := cons_prefix_cons.mp hpr
            rw [accepts_cons, hf]
            exact hb.2 p hp' fun he => hne (by rw [he])
      · rintro ⟨-, ha, hfr⟩
        rw [accepts_cons] at ha
        cases hf : findTransition ts c with
        | none => simp [hf] at ha
        | some child =>
          have hc := mem_of_findTransition hf
          rw [hf, elim_some] at ha
          refine ⟨hfr [] nil_prefix (cons_ne_nil _ _).symm, child, hc, ?_⟩
          cases w with
          | nil =>
            refine .inl ⟨(childKeys_eq_nil_iff (hp.terminal_or hc)).mpr ?_, rfl⟩
            cases child with
            | mk t' ts' => exact ha
          | cons d w =>
            refine .inr ((ih (hp.of_mem hc)).mpr ⟨cons_ne_nil _ _, ha, fun p hpr hne => ?_⟩)
            have hl := hfr (c :: p) (cons_prefix_cons.mpr ⟨rfl, hpr⟩) (by simpa using hne)
            rwa [accepts_cons, hf, elim_some] at hl

lemma accepts_append {last : Node} (h : n.hasPrefix w = some last) : n.accepts (w ++ x) = last.accepts x := by
  induction w generalizing n with
  | nil =>
    cases h
    rfl
  | cons c w ih =>
    rw [hasPrefix] at h
    split at h
    · next child hc =>
      rw [cons_append, accepts, hasPrefix, hc]
      exact ih h
    · cases h

lemma hasPrefix_of_accepts (h : n.accepts (w ++ x) = true) : ∃ last, n.hasPrefix w = some last := by
  induction w generalizing n with
  | nil => exact ⟨n, rfl⟩
  | cons c w ih =>
    cases n with
    | mk t ts =>
      rw [cons_append, accepts_cons] at h
      rw [hasPrefix, getChild, transitions]
      cases hf : findTransition ts c with
      | none => simp [hf] at h
      | some child =>
        rw [hf] at h
        exact ih h

lemma Proper.hasPrefix {last : Node} (hp : n.Proper) (h : n.hasPrefix w = some last) : last.Proper := by
  induction w generalizing n with
  | nil =>
    cases h
    exact hp
  | cons c w ih =>
    rw [Node.hasPrefix] at h
    split at h
    · next child hc =>
      cases n with
      | mk t ts => exact ih (hp.of_mem (mem_of_findTransition hc)) h
    · cases h

end Node

end Goiardi.Search
