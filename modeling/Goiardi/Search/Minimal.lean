import Goiardi.Search.Automaton

/-! The minimised automaton of sorted words, written out, is the trie of the words. -/

namespace Goiardi.Search.Automaton

open List

lemma formatNat_append_inj {m n : ℕ} {t u : Text} (ht : ∀ c ∈ t.head?, c.isDigit = false)
    (hu : ∀ c ∈ u.head?, c.isDigit = false) (h : Text.formatNat m ++ t = Text.formatNat n ++ u) : m = n ∧ t = u := by
  have hd (k : ℕ) (v : Text) (hv : ∀ c ∈ v.head?, c.isDigit = false) :
      (Text.formatNat k ++ v).takeWhile Char.isDigit = Text.formatNat k := by
    rw [takeWhile_append_of_pos fun c hc => all_eq_true.mp (Text.all_isDigit_formatNat k) c hc]
    cases v with
    | nil => simp
    | cons c v => simp [hv c rfl]
  have hmn : Text.formatNat m = Text.formatNat n := by rw [← hd m t ht, h, hd n u hu]
  refine ⟨Text.formatNat_injective hmn, ?_⟩
  rw [hmn] at h
  exact append_cancel_left h

def rest (ts : List (Char × ℕ)) : Text := if ts = [] then [] else ';' :: classText ts

lemma classText_cons (t : Char × ℕ) (ts : List (Char × ℕ)) :
    classText (t :: ts) = t.1 :: ':' :: (Text.formatNat t.2 ++ rest ts) := by
  rw [classText, map_cons, rest]
  split
  · next hts => simp [hts, Text.join, List.intercalate]
  · next hts =>
    obtain ⟨u, us, rfl⟩ := List.exists_cons_of_ne_nil hts
    simp [classText, Text.join, List.intercalate]

lemma rest_head (ts : List (Char × ℕ)) : ∀ c ∈ (rest ts).head?, c.isDigit = false := by
  rw [rest]
  split
  · simp
  · intro c hc
    obtain rfl : ';' = c := by simpa using hc
    rfl

lemma classText_injective {ts us : List (Char × ℕ)} (h : classText ts = classText us) : ts = us := by
  induction ts generalizing us with
  | nil =>
    cases us with
    | nil => rfl
    | cons u us =>
      rw [classText_cons] at h
      cases h
  | cons t ts ih =>
    cases us with
    | nil =>
      rw [classText_cons] at h
      cases h
    | cons u us =>
      rw [classText_cons, classText_cons] at h
      obtain ⟨hl, h⟩ := List.cons.inj h
      obtain ⟨hid, hr⟩ := formatNat_append_inj (rest_head ts) (rest_head us) (List.cons.inj h).2
      have ht : ts = us := by
        rw [rest, rest] at hr
        split at hr
        · next hts =>
          split at hr
          · next hus => rw [hts, hus]
          · cases hr
        · split at hr
          · cases hr
          · exact ih (List.cons.inj hr).2
      rw [Prod.ext hl hid, ht]

lemma getEquivalenceClass_injective : Function.Injective getEquivalenceClass := by
  rintro ⟨t, ts⟩ ⟨u, us⟩ h
  obtain ⟨ht, hts⟩ := EqClass.mk.inj h
  have hs : ts = us := classText_injective hts
  have htr : t = u := ht
  rw [hs, htr]

namespace Heap

variable {h h' : Heap} {id j fuel : ℕ} {n m : Node}

section

variable {α β : Type} {l : List α} {ts : List (Char × ℕ)} {kids : List (Char × Node)} {R : ℕ → Node → Prop}

lemma mapM_congr_mem {f g : α → Option β} (hfg : ∀ a ∈ l, f a = g a) : l.mapM f = l.mapM g := by
  induction l with
  | nil => rfl
  | cons a l ih => rw [mapM_cons, mapM_cons, hfg a (.head _), ih fun b hb => hfg b (.tail _ hb)]

abbrev Matches (R : ℕ → Node → Prop) : List (Char × ℕ) → List (Char × Node) → Prop :=
  List.Forall₂ fun t k => t.1 = k.1 ∧ R t.2 k.2

lemma unfold_succ : h.unfold (fuel + 1) id = some n ↔ ∃ kids, n = .mk (h.nodes id).terminal kids ∧
      Matches (fun j m => h.unfold fuel j = some m) (h.nodes id).transitions kids := by
  have ho (t : Char × ℕ) (k : Char × Node) :
      (h.unfold fuel t.2).map (Prod.mk t.1) = some k ↔ t.1 = k.1 ∧ h.unfold fuel t.2 = some k.2 := by
    rw [Option.map_eq_some_iff]
    constructor
    · rintro ⟨m, hm, rfl⟩
      exact ⟨rfl, hm⟩
    · rintro ⟨hl, hm⟩
      exact ⟨k.2, hm, Prod.ext hl rfl⟩
  rw [unfold, Option.map_eq_some_iff]
  simp only [mapM_eq_some_iff, ho]
  constructor
  · rintro ⟨kids, hk, rfl⟩
    exact ⟨kids, rfl, hk⟩
  · rintro ⟨kids, rfl, hk⟩
    exact ⟨kids, hk, rfl⟩

lemma unfold_mono (hn : h.unfold fuel id = some n) {fuel' : ℕ} (hle : fuel ≤ fuel') : h.unfold fuel' id = some n := by
  induction fuel generalizing id n fuel' with
  | zero => cases hn
  | succ fuel ih =>
    obtain ⟨k, rfl⟩ : ∃ k, fuel' = k + 1 := ⟨fuel' - 1, by omega⟩
    obtain ⟨kids, rfl, hkd⟩ := unfold_succ.mp hn
    exact unfold_succ.mpr ⟨kids, rfl, hkd.imp fun _ _ hk => ⟨hk.1, ih hk.2 (by omega)⟩⟩

def Shows (h : Heap) (id : ℕ) (n : Node) : Prop := ∃ fuel, h.unfold fuel id = some n

lemma Shows.unique (hn : h.Shows id n) (hm : h.Shows id m) : n = m := by
  obtain ⟨f, hf⟩ := hn
  obtain ⟨g, hg⟩ := hm
  have h₁ := unfold_mono hf (le_max_left f g)
  have h₂ := unfold_mono hg (le_max_right f g)
  exact Option.some.inj (h₁.symm.trans h₂)

lemma exists_fuel (ha : Matches h.Shows ts kids) : ∃ fuel, Matches (fun j m => h.unfold fuel j = some m) ts kids := by
  induction ha with
  | nil => exact ⟨0, .nil⟩
  | cons hab _ ih =>
    obtain ⟨f, hf⟩ := ih
    obtain ⟨hl, g, hg⟩ := hab
    exact ⟨max f g, .cons ⟨hl, unfold_mono hg (le_max_right _ _)⟩
      (hf.imp fun _ _ hk => ⟨hk.1, unfold_mono hk.2 (le_max_left _ _)⟩)⟩

lemma shows_iff : h.Shows id n ↔
    ∃ kids, n = .mk (h.nodes id).terminal kids ∧ Matches h.Shows (h.nodes id).transitions kids := by
  constructor
  · rintro ⟨fuel, hn⟩
    cases fuel with
    | zero => cases hn
    | succ fuel =>
      obtain ⟨kids, hn, hkd⟩ := unfold_succ.mp hn
      exact ⟨kids, hn, hkd.imp fun _ _ hk => ⟨hk.1, fuel, hk.2⟩⟩
  · rintro ⟨kids, hn, hkd⟩
    obtain ⟨fuel, hf⟩ := exists_fuel hkd
    exact ⟨fuel + 1, unfold_succ.mpr ⟨kids, hn, hf⟩⟩

lemma unfold_congr {S : ℕ → Prop} (hs : ∀ j, S j → h'.nodes j = h.nodes j)
    (hc : ∀ j, S j → ∀ t ∈ (h.nodes j).transitions, S t.2) (hid : S id) : h'.unfold fuel id = h.unfold fuel id := by
  induction fuel generalizing id with
  | zero => rfl
  | succ fuel ih =>
    rw [unfold, unfold, hs id hid]
    congr 1
    apply mapM_congr_mem
    intro t ht
    rw [ih (hc id hid t ht)]

lemma exists_matches (ha : ∀ t ∈ ts, ∃ n, R t.2 n) : ∃ kids, Matches R ts kids := by
  induction ts with
  | nil => exact ⟨[], .nil⟩
  | cons t ts ih =>
    obtain ⟨n, hn⟩ := ha t (.head _)
    obtain ⟨kids, hk⟩ := ih fun u hu => ha u (.tail _ hu)
    exact ⟨(t.1, n) :: kids, .cons ⟨rfl, hn⟩ hk⟩

lemma exists_unfold (ha : ∀ t ∈ (h.nodes id).transitions, ∃ n, h.unfold fuel t.2 = some n) :
    ∃ n, h.unfold (fuel + 1) id = some n := by
  obtain ⟨kids, hk⟩ := exists_matches (R := fun j n => h.unfold fuel j = some n) ha
  exact ⟨_, unfold_succ.mpr ⟨kids, rfl, hk⟩⟩

lemma matches_concat {init : List (Char × ℕ)} {c : Char} {child : ℕ} :
    Matches R (init ++ [(c, child)]) kids ↔ ∃ kinit m, kids = kinit ++ [(c, m)] ∧ Matches R init kinit ∧ R child m := by
  constructor
  · intro ha
    induction init generalizing kids with
    | nil =>
      obtain ⟨⟨d, m⟩, ks, ⟨hl, hm⟩, hks, rfl⟩ := forall₂_cons_left_iff.mp ha
      obtain rfl := forall₂_nil_left_iff.mp hks
      cases hl
      exact ⟨[], m, rfl, .nil, hm⟩
    | cons t init ih =>
      obtain ⟨k, ks, hk, hks, rfl⟩ := forall₂_cons_left_iff.mp ha
      obtain ⟨kinit, m, rfl, hi, hm⟩ := ih hks
      exact ⟨k :: kinit, m, rfl, .cons hk hi, hm⟩
  · rintro ⟨kinit, m, rfl, hi, hm⟩
    exact rel_append hi (.cons ⟨rfl, hm⟩ .nil)

lemma Matches.labels (ha : Matches R ts kids) : ts.map Prod.fst = kids.map Prod.fst := by
  induction ha with
  | nil => rfl
  | cons hab _ ih => rw [map_cons, map_cons, hab.1, ih]

lemma Matches.increasing (ha : Matches R ts kids) (hi : Increasing kids) : Increasing ts := by
  have hl : (ts.map Prod.fst).Pairwise (· < ·) := by
    rw [ha.labels]
    exact pairwise_map.mpr hi
  exact pairwise_map.mp hl

lemma Matches.forall_label {p : Char → Prop} (ha : Matches R ts kids) : (∀ t ∈ ts, p t.1) ↔ ∀ k ∈ kids, p k.1 := by
  rw [← forall_mem_map (f := Prod.fst), ha.labels, forall_mem_map]

end

section

structure Sound (h : Heap) : Prop where
  valid : ∀ p ∈ h.eqv, p.2 ∈ h.registered ∧ getEquivalenceClass (h.nodes p.2) = p.1
  closed : ∀ id ∈ h.registered, ∀ t ∈ (h.nodes id).transitions, t.2 ∈ h.registered
  bounded : ∀ id ∈ h.registered, id < h.nextId
  inside : ∀ id, ∀ t ∈ (h.nodes id).transitions, t.2 < h.nextId
  nodup : h.registered.Nodup
  shows : ∀ id ∈ h.registered, ∃ n, h.unfold h.registered.length id = some n

structure Frame (h h' : Heap) (last : ℕ) : Prop where
  same : ∀ id, id ∈ h.registered ∨ id < last → h'.nodes id = h.nodes id
  kept : ∀ id ∈ h.registered, id ∈ h'.registered
  added : ∀ id ∈ h'.registered, id ∈ h.registered ∨ last < id
  next : h.nextId ≤ h'.nextId

lemma Frame.refl (h : Heap) (last : ℕ) : Frame h h last := ⟨fun _ _ => rfl, fun _ => id, fun _ => .inl, le_rfl⟩

variable {h₁ h₂ : Heap} {last : ℕ}

lemma Frame.trans (f : Frame h h₁ last) (g : Frame h₁ h₂ last) : Frame h h₂ last where
  same id hid := (g.same id (hid.imp_left (f.kept id))).trans (f.same id hid)
  kept id hid := g.kept id (f.kept id hid)
  added id hid := (g.added id hid).elim (f.added id) .inr
  next := f.next.trans g.next

lemma Frame.mono (f : Frame h h' j) (hle : id ≤ j) : Frame h h' id where
  same k hk := f.same k (hk.imp_right (lt_of_lt_of_le · hle))
  kept := f.kept
  added k hk := (f.added k hk).imp_right (lt_of_le_of_lt hle)
  next := f.next

lemma Frame.shows (f : Frame h h' last) (hs : h.Sound) (hid : id ∈ h.registered) (hn : h.Shows id n) :
    h'.Shows id n := by
  obtain ⟨fuel, hf⟩ := hn
  refine ⟨fuel, ?_⟩
  rw [← hf]
  exact unfold_congr (fun j hj => f.same j (.inl hj)) hs.closed hid

lemma Frame.matches_shows (f : Frame h h' last) (hs : h.Sound) {ts : List (Char × ℕ)} {kids : List (Char × Node)}
    (hts : ∀ t ∈ ts, t.2 ∈ h.registered) (ha : Matches h.Shows ts kids) : Matches h'.Shows ts kids := by
  induction ha with
  | nil => exact .nil
  | cons hab _ ih =>
    exact .cons ⟨hab.1, f.shows hs (hts _ (.head _)) hab.2⟩ (ih fun t ht => hts t (.tail _ ht))

lemma Frame.not_registered (f : Frame h h' last) (hid : id ∉ h.registered) (hl : id ≤ last) : id ∉ h'.registered :=
  fun hin => (f.added id hin).elim hid fun hlt => absurd hlt (not_lt.mpr hl)

lemma Sound.valid_lookup (hs : h.Sound) {n : Record} {e : ℕ} (he : h.eqv.lookup (getEquivalenceClass n) = some e) :
    e ∈ h.registered ∧ h.nodes e = n := by
  obtain ⟨l₁, l₂, heq, -⟩ := lookup_eq_some_iff.mp he
  obtain ⟨hin, hc⟩ := hs.valid (getEquivalenceClass n, e) (by rw [heq]; simp)
  exact ⟨hin, getEquivalenceClass_injective hc⟩

-- a change outside the registered nodes
lemma Sound.change (hs : h.Sound) (he : h'.eqv = h.eqv) (hr : h'.registered = h.registered)
    (hsm : ∀ j ∈ h.registered, h'.nodes j = h.nodes j) (hnx : h.nextId ≤ h'.nextId)
    (hi : ∀ id, ∀ t ∈ (h'.nodes id).transitions, t.2 < h'.nextId) : h'.Sound := by
  refine ⟨?_, ?_, ?_, hi, hr ▸ hs.nodup, ?_⟩
  · intro p hp
    obtain ⟨hin, hc⟩ := hs.valid p (he ▸ hp)
    exact ⟨hr ▸ hin, by rw [hsm _ hin, hc]⟩
  · intro k hk t ht
    rw [hr] at hk ⊢
    rw [hsm k hk] at ht
    exact hs.closed k hk t ht
  · intro k hk
    exact (hs.bounded k (hr ▸ hk)).trans_le hnx
  · intro k hk
    rw [hr] at hk ⊢
    obtain ⟨n, hn⟩ := hs.shows k hk
    exact ⟨n, (unfold_congr hsm hs.closed hk).trans hn⟩

def leaf : Record := ⟨true, []⟩

structure Leaf (h : Heap) (e : ℕ) : Prop where
  isRegistered : e ∈ h.registered
  record : h.nodes e = leaf
  found : h.eqv.lookup (getEquivalenceClass leaf) = some e

def Spine (h : Heap) (fresh : Bool) : ℕ → Text → Prop
  | id, [] => fresh = true ∧ id ∉ h.registered ∧ id < h.nextId ∧ (h.nodes id).transitions = []
  | id, c :: w => id ∉ h.registered ∧ id < h.nextId ∧ ∃ init child, (h.nodes id).transitions = init ++ [(c, child)] ∧
      (∀ t ∈ init, t.2 ∈ h.registered) ∧
      (fresh = false ∧ w = [] ∧ h.Leaf child ∨ id < child ∧ h.Spine fresh child w)

variable {fresh : Bool} {w u : Text}

lemma Spine.not_registered (hw : h.Spine fresh id w) : id ∉ h.registered := by
  cases w with
  | nil => exact hw.2.1
  | cons c w => exact hw.1

lemma Spine.lt_nextId (hw : h.Spine fresh id w) : id < h.nextId := by
  cases w with
  | nil => exact hw.2.2.1
  | cons c w => exact hw.2.1

end

section

lemma set_same (h : Heap) (id : ℕ) (r : Record) : (h.set id r).nodes id = r := Function.update_self ..

lemma set_other (h : Heap) {id : ℕ} (r : Record) (hj : j ≠ id) : (h.set id r).nodes j = h.nodes j :=
  Function.update_of_ne hj ..

variable {init : List (Char × ℕ)} {c : Char} {child e : ℕ} {fresh : Bool} {w u : Text}

lemma setLastChild_same (hts : (h.nodes id).transitions = init ++ [(c, child)]) :
    (h.setLastChild id e).nodes id = ⟨(h.nodes id).terminal, init ++ [(c, e)]⟩ := by
  simp [setLastChild, set_same, hts, withLast]

lemma unfold_setLastChild (hts : (h.nodes id).transitions = init ++ [(c, child)]) (hs : h.nodes e = h.nodes child) :
    (h.setLastChild id e).unfold fuel j = h.unfold fuel j := by
  induction fuel generalizing j with
  | zero => rfl
  | succ fuel ih =>
    by_cases hj : j = id
    · subst hj
      have hc : h.unfold fuel e = h.unfold fuel child := by
        cases fuel with
        | zero => rfl
        | succ fuel => rw [unfold, unfold, hs]
      rw [unfold, unfold, setLastChild_same hts, hts]
      simp only [ih, mapM_append, mapM_cons, hc]
    · have ho : (h.setLastChild id e).nodes j = h.nodes j := set_other h _ hj
      rw [unfold, unfold, ho]
      simp only [ih]

lemma unfold_register (eqClass : EqClass) (child : ℕ) : (h.register eqClass child).unfold fuel j = h.unfold fuel j :=
  unfold_congr (S := fun _ => True) (fun _ _ => rfl) (fun _ _ _ _ => trivial) trivial

structure Minimised (h h' : Heap) (id : ℕ) : Prop where
  sound : h'.Sound
  frame : Frame h h' id
  written : ∀ fuel j, h'.unfold fuel j = h.unfold fuel j
  next : h'.nextId = h.nextId
  settled : ∀ t ∈ (h'.nodes id).transitions, t.2 ∈ h'.registered

lemma Minimised.refl (hs : h.Sound) (ha : ∀ t ∈ (h.nodes id).transitions, t.2 ∈ h.registered) : Minimised h h id :=
  ⟨hs, .refl h id, fun _ _ => rfl, rfl, ha⟩

lemma Minimised.shows (hm : Minimised h h' id) : h'.Shows j n ↔ h.Shows j n := by
  simp only [Shows, hm.written]

lemma forall_mem_concat (hi : ∀ t ∈ init, t.2 ∈ h.registered) (he : e ∈ h.registered) :
    ∀ t ∈ init ++ [(c, e)], t.2 ∈ h.registered := by
  intro t ht
  rcases mem_append.mp ht with ht | ht
  · exact hi t ht
  · rw [mem_singleton.mp ht]
    exact he

lemma register_sound (hs : h.Sound) (hc : child ∉ h.registered) (hlt : child < h.nextId)
    (hkd : ∀ t ∈ (h.nodes child).transitions, t.2 ∈ h.registered) :
    (h.register (getEquivalenceClass (h.nodes child)) child).Sound := by
  refine ⟨?_, ?_, ?_, hs.inside, nodup_cons.mpr ⟨hc, hs.nodup⟩, ?_⟩
  · intro p hp
    rcases mem_cons.mp hp with rfl | hp
    · exact ⟨.head _, rfl⟩
    · exact ⟨.tail _ (hs.valid p hp).1, (hs.valid p hp).2⟩
  · intro k hk t ht
    rcases mem_cons.mp hk with rfl | hk
    · exact .tail _ (hkd t ht)
    · exact .tail _ (hs.closed k hk t ht)
  · intro k hk
    rcases mem_cons.mp hk with rfl | hk
    · exact hlt
    · exact hs.bounded k hk
  · intro k hk
    simp only [unfold_register]
    rcases mem_cons.mp hk with rfl | hk
    · exact exists_unfold fun t ht => hs.shows _ (hkd t ht)
    · obtain ⟨n, hn⟩ := hs.shows k hk
      exact ⟨n, unfold_mono hn (Nat.le_succ _)⟩

lemma settleChild_spec (hs : h.Sound) (hid : id ∉ h.registered) (hc : child ∉ h.registered)
    (hts : (h.nodes id).transitions = init ++ [(c, child)]) (hi : ∀ t ∈ init, t.2 ∈ h.registered)
    (hlt : id < child) (hkd : ∀ t ∈ (h.nodes child).transitions, t.2 ∈ h.registered) :
    Minimised h (h.settleChild id child) id ∧ ∃ e, ((h.settleChild id child).nodes id).transitions = init ++ [(c, e)] ∧
        e ∈ (h.settleChild id child).registered ∧ (h.settleChild id child).nodes e = h.nodes child ∧
        (h.settleChild id child).eqv.lookup (getEquivalenceClass (h.nodes child)) = some e := by
  rw [settleChild]
  split
  · next e he =>
    obtain ⟨hin, hsm⟩ := hs.valid_lookup he
    have ho (k : ℕ) (hk : k ≠ id) : (h.setLastChild id e).nodes k = h.nodes k := set_other h _ hk
    have hr (k : ℕ) (hk : k ∈ h.registered) : (h.setLastChild id e).nodes k = h.nodes k :=
      ho k fun he => hid (he ▸ hk)
    have ha : ∀ t ∈ ((h.setLastChild id e).nodes id).transitions, t.2 ∈ h.registered := by
      rw [setLastChild_same hts]
      exact forall_mem_concat hi hin
    refine ⟨⟨hs.change rfl rfl hr le_rfl ?_, ⟨?_, fun _ hk => hk, fun _ => .inl, le_rfl⟩,
      fun _ _ => unfold_setLastChild hts hsm, rfl, ha⟩, e, by rw [setLastChild_same hts], hin,
      (hr e hin).trans hsm, he⟩
    · intro k t ht
      by_cases hk : k = id
      · exact hs.bounded _ (ha t (hk ▸ ht))
      · rw [ho k hk] at ht
        exact hs.inside k t ht
    · intro k hk
      refine ho k ?_
      rintro rfl
      exact hk.elim hid (lt_irrefl _)
  · have hb : child < h.nextId := hs.inside id (c, child) (by simp [hts])
    refine ⟨⟨register_sound hs hc hb hkd, ⟨fun _ _ => rfl, fun _ => .tail _, ?_, le_rfl⟩,
      fun _ _ => unfold_register _ _, rfl, ?_⟩, child, hts, .head _, rfl, by simp [register]⟩
    · intro k hk
      rcases mem_cons.mp hk with rfl | hk
      · exact .inr hlt
      · exact .inl hk
    · intro t ht
      have ht : t ∈ init ++ [(c, child)] := hts ▸ ht
      exact forall_mem_concat (h := h.register _ child) (fun t ht => .tail _ (hi t ht)) (.head _) t ht

lemma replaceOrRegister_spine (hs : h.Sound) (hw : w ≠ []) (hsp : h.Spine fresh id w) (hfl : h.nextId ≤ id + fuel) :
    ∃ h', replaceOrRegister fuel h id = .ok h' ∧ Minimised h h' id := by
  induction w generalizing fuel id with
  | nil => exact absurd rfl hw
  | cons c w ih =>
    obtain ⟨hid, hlt, init, child, hts, hi, hc⟩ := hsp
    obtain ⟨fuel, rfl⟩ : ∃ k, fuel = k + 1 := ⟨fuel - 1, by omega⟩
    have hls : (h.nodes id).transitions.getLast? = some (c, child) := by simp [hts]
    rw [replaceOrRegister, hls]
    dsimp only
    rcases hc with ⟨-, -, hlf⟩ | ⟨hl, hsp⟩
    · rw [if_pos hlf.isRegistered]
      exact ⟨h, rfl, .refl hs (hts ▸ forall_mem_concat hi hlf.isRegistered)⟩
    · have hb : ∃ h₁, (if (h.nodes child).transitions = [] then .ok h else replaceOrRegister fuel h child) = .ok h₁ ∧
          Minimised h h₁ child := by
        cases w with
        | nil =>
          rw [if_pos hsp.2.2.2]
          exact ⟨h, rfl, .refl hs (by simp [hsp.2.2.2])⟩
        | cons d w =>
          have hne : (h.nodes child).transitions ≠ [] := by
            obtain ⟨-, -, init, grandchild, hts, -⟩ := hsp
            simp [hts]
          rw [if_neg hne]
          exact ih (cons_ne_nil _ _) hsp (by omega)
      obtain ⟨h₁, hr, hm⟩ := hb
      have hf := hm.frame
      have hsm : h₁.nodes id = h.nodes id := hf.same id (.inr hl)
      obtain ⟨hst, -⟩ := settleChild_spec hm.sound (hf.not_registered hid hl.le)
        (hf.not_registered hsp.not_registered le_rfl) (hsm ▸ hts) (fun t ht => hf.kept _ (hi t ht))
        hl hm.settled
      rw [if_neg hsp.not_registered, hr]
      exact ⟨_, rfl, hst.sound, (hf.mono hl.le).trans hst.frame,
        fun fuel j => (hst.written fuel j).trans (hm.written fuel j), hst.next.trans hm.next,
        hst.settled⟩

lemma minimise_spine (hs : h.Sound) (hsp : h.Spine fresh id w) : ∃ h', h.minimise id = .ok h' ∧ Minimised h h' id := by
  rw [minimise]
  cases w with
  | nil =>
    rw [if_pos hsp.2.2.2]
    exact ⟨h, rfl, .refl hs (by simp [hsp.2.2.2])⟩
  | cons c w =>
    have hne : (h.nodes id).transitions ≠ [] := by
      obtain ⟨-, -, init, child, hts, -⟩ := hsp
      simp [hts]
    rw [if_neg hne]
    exact replaceOrRegister_spine hs (cons_ne_nil _ _) hsp (by omega)

-- a word that is put in again: its last node becomes the registered leaf
lemma minimise_end (hs : h.Sound) (hid : id ∉ h.registered) (hlt : id < h.nextId)
    (hts : (h.nodes id).transitions = init ++ [(c, child)]) (hi : ∀ t ∈ init, t.2 ∈ h.registered)
    (hc : h.Leaf child ∨ id < child ∧ child ∉ h.registered ∧ h.nodes child = leaf) :
    ∃ h' e, h.minimise id = .ok h' ∧ Minimised h h' id ∧ (h'.nodes id).transitions = init ++ [(c, e)] ∧ h'.Leaf e := by
  have hne : (h.nodes id).transitions ≠ [] := by simp [hts]
  have hls : (h.nodes id).transitions.getLast? = some (c, child) := by simp [hts]
  obtain ⟨fuel, hfl⟩ : ∃ k, h.nextId = k + 1 := ⟨h.nextId - 1, by omega⟩
  rw [minimise, if_neg hne, hfl, replaceOrRegister, hls]
  dsimp only
  rcases hc with hl | ⟨hle, hc, hr⟩
  · rw [if_pos hl.isRegistered]
    exact ⟨h, child, rfl, .refl hs (hts ▸ forall_mem_concat hi hl.isRegistered), hts, hl⟩
  · have he : (h.nodes child).transitions = [] := by rw [hr, leaf]
    obtain ⟨hm, e, ht', hin, hsm, hf⟩ := settleChild_spec hs hid hc hts hi hle (by simp [he])
    rw [if_neg hc, if_pos he]
    rw [hr] at hsm hf
    exact ⟨_, e, rfl, hm, ht', hin, hsm, hf⟩

end

end Heap

end Goiardi.Search.Automaton
