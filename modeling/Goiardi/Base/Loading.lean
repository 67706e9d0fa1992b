import Goiardi.Base.Text
import Mathlib.Data.List.AList

/-! Filling a store from a list of written entries, and when this gives back the store they were written from.

The reader may take another key than the entry had, may change the value, and may refuse an entry. -/

namespace Goiardi

open List AList

lemma optionRel_eq_iff {α : Type} {a b : Option α} : Option.Rel (· = ·) a b ↔ a = b := by
  constructor
  · rintro (_ | _) <;> simp [*]
  · rintro rfl
    cases a
    · exact .none
    · exact .some rfl

structure Loader (σ J α ε : Type) where
  old : Text → Option α
  write : Text → α → J
  find : σ → Text → Option α
  step : σ → J → Except ε σ
  key : Text → α → Text
  Makes : Text → α → α → Prop
  Refuses : Prop
  Same : α → α → Prop
  Inv : σ → Prop
  unique : ∀ {k v w w'}, Makes k v w → Makes k v w' → w = w'
  accepts : ∀ {s s' k v}, old k = some v → Inv s → step s (write k v) = .ok s' →
    (Refuses → find s (key k v) = none) ∧ ∃ w, Makes k v w
  stores : ∀ {s k v w}, old k = some v → Inv s → (Refuses → find s (key k v) = none) → Makes k v w →
    ∃ s', step s (write k v) = .ok s' ∧ Inv s' ∧ ∀ j, find s' j = if j = key k v then some w else find s j
  key_same : ∀ {k u w v}, old k = some u → Makes k u w → Same w v → key (key k u) v = key k u

namespace Loader

variable {σ J α ε : Type} (L : Loader σ J α ε)

def load (s : σ) (l : List (Text × α)) : Except ε σ := (l.map fun e => L.write e.1 e.2).foldlM L.step s

def Returns (k : Text) (v : α) : Prop := L.key k v = k ∧ ∃ w, L.Makes k v w ∧ L.Same w v

def Restored (s : σ) : Prop := ∀ k, Option.Rel L.Same (L.find s k) (L.old k)

def Within (s : σ) : Prop := ∀ k w, L.find s k = some w → ∃ v, L.old k = some v ∧ L.Makes k v w

variable {L} {s s' r : σ} {k : Text} {v : α} {l : List (Text × α)}

lemma load_spec (ho : ∀ e ∈ l, L.old e.1 = some e.2) (hs : L.Inv s) (h : L.load s l = .ok r) :
    L.Inv r ∧ ∀ k w, L.find r k = some w → (∃ e ∈ l, L.key e.1 e.2 = k ∧ L.Makes e.1 e.2 w) ∨ L.find s k = some w := by
  induction l generalizing s with
  | nil =>
    cases h
    exact ⟨hs, fun k w hw => .inr hw⟩
  | cons e l ih =>
    obtain ⟨s', hst, h⟩ := bind_eq_ok h
    obtain ⟨hfr, w', hw'⟩ := L.accepts (ho e (.head _)) hs hst
    obtain ⟨_, hst', hs', hf⟩ := L.stores (ho e (.head _)) hs hfr hw'
    cases hst'.symm.trans hst
    obtain ⟨hr, hfr⟩ := ih (fun e' he' => ho e' (.tail _ he')) hs' h
    refine ⟨hr, fun k w hw => ?_⟩
    rcases hfr k w hw with ⟨e', he', hk, hw⟩ | hw
    · exact .inl ⟨e', .tail _ he', hk, hw⟩
    · rw [hf] at hw
      split at hw
      · next hk =>
        cases hw
        exact .inl ⟨e, .head _, hk.symm, hw'⟩
      · exact .inr hw

lemma load_inv (ho : ∀ e ∈ l, L.old e.1 = some e.2) (hs : L.Inv s) (h : L.load s l = .ok r) : L.Inv r :=
  (load_spec ho hs h).1

lemma load_of_returns (ho : ∀ e ∈ l, L.old e.1 = some e.2) (hs : L.Inv s) (hwt : L.Within s)
    (hl : ∀ e ∈ l, L.Returns e.1 e.2) (hfr : L.Refuses → (l.map Prod.fst).Nodup ∧ ∀ e ∈ l, L.find s e.1 = none) :
    ∃ r, L.load s l = .ok r ∧ L.Within r ∧ (∀ k, (L.find s k).isSome → (L.find r k).isSome) ∧
      ∀ e ∈ l, (L.find r e.1).isSome := by
  induction l generalizing s with
  | nil => exact ⟨s, rfl, hwt, fun _ => id, by simp⟩
  | cons e l ih =>
    have he := ho e (.head _)
    obtain ⟨hky, w, hw, -⟩ := hl e (.head _)
    obtain ⟨s', hst, hs', hf⟩ := L.stores he hs (fun h => by rw [hky]; exact (hfr h).2 e (.head _)) hw
    rw [hky] at hf
    have hw' : L.Within s' := by
      intro k w' hk
      rw [hf] at hk
      split at hk
      · next heq =>
        cases hk
        exact ⟨e.2, heq ▸ he, heq ▸ hw⟩
      · exact hwt k w' hk
    have hf' : L.Refuses → (l.map Prod.fst).Nodup ∧ ∀ e ∈ l, L.find s' e.1 = none := by
      intro h
      obtain ⟨hn, hnn⟩ := hfr h
      obtain ⟨hnm, hn⟩ := nodup_cons.mp hn
      refine ⟨hn, fun e' he' => ?_⟩
      have hne : e'.1 ≠ e.1 := fun heq => hnm (mem_map.mpr ⟨e', he', heq⟩)
      rw [hf, if_neg hne]
      exact hnn e' (.tail _ he')
    obtain ⟨r, hld, hr, hkp, ha⟩ := ih (fun e' he' => ho e' (.tail _ he')) hs' hw'
      (fun e' he' => hl e' (.tail _ he')) hf'
    have hk' : ∀ k, (L.find s k).isSome → (L.find r k).isSome := by
      intro k hk
      refine hkp k ?_
      rw [hf]
      split
      · rfl
      · exact hk
    refine ⟨r, ?_, hr, hk', fun e' he' => ?_⟩
    · change (L.step s (L.write e.1 e.2) >>= fun s' => L.load s' l) = _
      rw [hst]
      exact hld
    · rcases mem_cons.mp he' with rfl | he'
      · exact hkp _ (by rw [hf, if_pos rfl]; rfl)
      · exact ha e' he'

theorem restored_iff (ho : ∀ e ∈ l, L.old e.1 = some e.2) (hs : L.Inv s) (hem : ∀ k, L.find s k = none)
    (hnd : L.Refuses → (l.map Prod.fst).Nodup) :
    (∃ r, L.load s l = .ok r ∧ L.Restored r) ↔ ∀ k v, L.old k = some v → (k, v) ∈ l ∧ L.Returns k v := by
  constructor
  · rintro ⟨r, hl, hr⟩
    obtain ⟨-, hf⟩ := load_spec ho hs hl
    have hsr : ∀ k v, L.old k = some v →
        ∃ e ∈ l, L.key e.1 e.2 = k ∧ ∃ w, L.Makes e.1 e.2 w ∧ L.Same w v := by
      intro k v hv
      have hrl := hr k
      rw [hv] at hrl
      cases hw : L.find r k with
      | none =>
        rw [hw] at hrl
        cases hrl
      | some w =>
        rw [hw] at hrl
        cases hrl with
        | some hsame =>
          rcases hf k w hw with ⟨e, he, hk, hm⟩ | hk
          · exact ⟨e, he, hk, w, hm, hsame⟩
          · rw [hem] at hk
            cases hk
    -- a value in its place tells the key that it was read with
    have hky : ∀ k v, L.old k = some v → L.key k v = k := by
      intro k v hv
      obtain ⟨e, he, rfl, w, hw, hsame⟩ := hsr k v hv
      exact L.key_same (ho e he) hw hsame
    intro k v hv
    obtain ⟨⟨k', v'⟩, he, hk, w, hw, hsame⟩ := hsr k v hv
    obtain rfl : k' = k := (hky k' v' (ho _ he)).symm.trans hk
    cases hv.symm.trans (ho _ he)
    exact ⟨he, hk, w, hw, hsame⟩
  · intro hrt
    have hn : L.Within s := by
      intro k w hw
      rw [hem] at hw
      cases hw
    obtain ⟨r, hl, hwt, -, ha⟩ := load_of_returns ho hs hn
      (fun e he => (hrt _ _ (ho e he)).2) fun h => ⟨hnd h, fun e _ => hem e.1⟩
    refine ⟨r, hl, fun k => ?_⟩
    cases hv : L.old k with
    | none =>
      cases hw : L.find r k with
      | none => exact .none
      | some w =>
        obtain ⟨v, hv', -⟩ := hwt k w hw
        rw [hv] at hv'
        cases hv'
    | some v =>
      obtain ⟨hmm, -, w, hw, hsame⟩ := hrt k v hv
      obtain ⟨w', hw'⟩ := Option.isSome_iff_exists.mp (ha _ hmm)
      obtain ⟨v', hv', hm⟩ := hwt k w' hw'
      cases hv.symm.trans hv'
      cases L.unique hw hm
      rw [hw']
      exact .some hsame

theorem restored_iff_eq (hsame : ∀ w v, L.Same w v ↔ w = v) (hl : ∀ e, e ∈ l ↔ L.old e.1 = some e.2) (hs : L.Inv s)
    (hem : ∀ k, L.find s k = none) (hn : (l.map Prod.fst).Nodup) :
    (∃ r, L.load s l = .ok r ∧ ∀ k, L.find r k = L.old k) ↔ ∀ k v, L.old k = some v → L.Returns k v := by
  have heq : L.Same = Eq := funext fun w => funext fun v => propext (hsame w v)
  have hr : ∀ r, L.Restored r ↔ ∀ k, L.find r k = L.old k := by
    intro r
    rw [Restored, heq]
    exact forall_congr' fun k => optionRel_eq_iff
  simp only [← hr]
  rw [restored_iff (fun e he => (hl e).mp he) hs hem fun _ => hn]
  exact ⟨fun h k v hv => (h k v hv).2, fun h k v hv => ⟨(hl (k, v)).mpr hv, h k v hv⟩⟩

end Loader

abbrev Table (α : Type) := AList fun _ : Text => α

namespace Table

variable {J α ε : Type}

def list (t : Table α) : List (Text × α) := t.entries.map fun e => (e.1, e.2)

lemma mem_list {t : Table α} {e : Text × α} : e ∈ t.list ↔ t.lookup e.1 = some e.2 := by
  rw [← Option.mem_def, mem_lookup_iff, list, mem_map]
  constructor
  · rintro ⟨e, he, rfl⟩
    exact he
  · exact fun he => ⟨_, he, rfl⟩

lemma nodup_list (t : Table α) : (t.list.map Prod.fst).Nodup := by
  rw [list, map_map]
  exact t.nodupKeys

structure Reader (J α ε : Type) where
  write : Text → α → J
  step : Table α → J → Except ε (Table α)
  key : Text → α → Text
  Makes : Text → α → α → Prop
  Refuses : Prop
  Same : α → α → Prop
  step_eq_ok : ∀ {t t' k v}, step t (write k v) = .ok t' ↔
    (Refuses → t.lookup (key k v) = none) ∧ ∃ w, Makes k v w ∧ t' = t.insert (key k v) w
  key_same : ∀ {k u w v}, Makes k u w → Same w v → key (key k u) v = key k u

namespace Reader

variable (R : Reader J α ε)

lemma makes_unique {k : Text} {v w w' : α} (hw : R.Makes k v w) (hw' : R.Makes k v w') : w = w' := by
  have ha : ∀ u, R.Makes k v u → R.step ∅ (R.write k v) = .ok ((∅ : Table α).insert (R.key k v) u) :=
    fun u hu => R.step_eq_ok.mpr ⟨fun _ => rfl, u, hu, rfl⟩
  have hi := Except.ok.inj ((ha w hw).symm.trans (ha w' hw'))
  have hl := congrArg (AList.lookup (R.key k v)) hi
  rw [lookup_insert, lookup_insert] at hl
  exact Option.some.inj hl

def loader (old : Table α) : Loader (Table α) J α ε where
  old := old.lookup
  write := R.write
  find t := t.lookup
  step := R.step
  key := R.key
  Makes := R.Makes
  Refuses := R.Refuses
  Same := R.Same
  Inv _ := True
  unique := R.makes_unique
  accepts _ _ h :=
    have ⟨hfree, w, hw, _⟩ := R.step_eq_ok.mp h
    ⟨hfree, w, hw⟩
  stores {t k v w} _ _ hfree hw := by
    refine ⟨t.insert (R.key k v) w, R.step_eq_ok.mpr ⟨hfree, w, hw, rfl⟩, trivial, fun j => ?_⟩
    split
    · next h => rw [h, lookup_insert]
    · next h => exact lookup_insert_ne h
  key_same _ := R.key_same

variable {R} {old : Table α} {l : List (Text × α)}

lemma restored_iff_mem (hl : ∀ e ∈ l, old.lookup e.1 = some e.2) (hn : R.Refuses → (l.map Prod.fst).Nodup) :
    (∃ t, (l.map fun e => R.write e.1 e.2).foldlM R.step ∅ = .ok t ∧
      ∀ k, Option.Rel R.Same (t.lookup k) (old.lookup k)) ↔
    ∀ k v, old.lookup k = some v → (k, v) ∈ l ∧ R.key k v = k ∧ ∃ w, R.Makes k v w ∧ R.Same w v :=
  (R.loader old).restored_iff hl trivial (fun _ => rfl) hn

lemma restored_iff (old : Table α) : (∃ t, (old.list.map fun e => R.write e.1 e.2).foldlM R.step ∅ = .ok t ∧
      ∀ k, Option.Rel R.Same (t.lookup k) (old.lookup k)) ↔
    ∀ k v, old.lookup k = some v → R.key k v = k ∧ ∃ w, R.Makes k v w ∧ R.Same w v := by
  rw [restored_iff_mem (fun e he => mem_list.mp he) fun _ => old.nodup_list]
  exact ⟨fun h k v hv => (h k v hv).2, fun h k v hv => ⟨mem_list.mpr hv, h k v hv⟩⟩

section

variable {write : α → J} (hsame : ∀ w v, R.Same w v ↔ w = v) (hwrite : ∀ k v, R.write k v = write v)

include hsame

lemma restored_iff_lookup {t : Table α} :
    (∀ k, Option.Rel R.Same (t.lookup k) (old.lookup k)) ↔ ∀ k, t.lookup k = old.lookup k := by
  rw [show R.Same = Eq from funext fun w => funext fun v => propext (hsame w v)]
  exact forall_congr' fun _ => optionRel_eq_iff

lemma makes_same_iff {k : Text} {v : α} : (∃ w, R.Makes k v w ∧ R.Same w v) ↔ R.Makes k v v := by
  simp only [hsame, exists_eq_right]

include hwrite

lemma restored_iff_eq (old : Table α) :
    (∃ t, (old.list.map fun e => write e.2).foldlM R.step ∅ = .ok t ∧ ∀ k, t.lookup k = old.lookup k) ↔
    ∀ k v, old.lookup k = some v → R.key k v = k ∧ R.Makes k v v := by
  have hr := R.restored_iff old
  simp only [restored_iff_lookup hsame, makes_same_iff hsame, hwrite] at hr
  exact hr

lemma restored_iff_values {key : α → Text} {vs : List α} (hky : ∀ k v, R.key k v = key v)
    (hvs : ∀ v ∈ vs, ∃ k, old.lookup k = some v) (hf : ¬ R.Refuses) :
    (∃ t, (vs.map write).foldlM R.step ∅ = .ok t ∧ ∀ k, t.lookup k = old.lookup k) ↔
    ∀ k v, old.lookup k = some v → v ∈ vs ∧ key v = k ∧ R.Makes k v v := by
  obtain ⟨l, rfl, hl⟩ : ∃ l : List (Text × α), l.map Prod.snd = vs ∧ ∀ e ∈ l, old.lookup e.1 = some e.2 := by
    induction vs with
    | nil => exact ⟨[], rfl, by simp⟩
    | cons v vs ih =>
      obtain ⟨l, rfl, hl⟩ := ih fun u hu => hvs u (.tail _ hu)
      obtain ⟨k, hk⟩ := hvs v (.head _)
      exact ⟨(k, v) :: l, rfl, forall_mem_cons.mpr ⟨hk, hl⟩⟩
  have hmp : (l.map fun e => R.write e.1 e.2) = (l.map Prod.snd).map write := by
    rw [map_map]
    exact map_congr_left fun e _ => hwrite e.1 e.2
  have hr := restored_iff_mem hl fun h => absurd h hf
  simp only [restored_iff_lookup hsame, makes_same_iff hsame, hky] at hr
  rw [← hmp, hr]
  constructor
  · intro h k v hv
    obtain ⟨hm, hk, hw⟩ := h k v hv
    exact ⟨mem_map.mpr ⟨_, hm, rfl⟩, hk, hw⟩
  · intro h k v hv
    obtain ⟨hm, hk, hw⟩ := h k v hv
    obtain ⟨⟨k', v'⟩, he, rfl⟩ := mem_map.mp hm
    obtain rfl : key v' = k' := (h k' v' (hl _ he)).2.1
    exact ⟨hk ▸ he, hk, hw⟩

end

end Reader

end Table

end Goiardi
