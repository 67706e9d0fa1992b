import Goiardi.Cookbooks.Depends
import Goiardi.Objects.Records

/-! Run lists: the normal form that `ValidateRunList` computes, and the items that it accepts. -/

namespace Goiardi.Objects

def bracketed (rlType body : Text) : Text := rlType ++ '[' :: body ++ [']']

def normalForm (item : Text) : Text := if '[' ∈ item then item else bracketed "recipe" item

section

variable {item rlType body name out : Text}

lemma inspectItem_bracketed (hne : rlType ≠ []) (hw : rlType.all isWord = true) :
    inspectItem (bracketed rlType body) = some (rlType, body) := by
  have hs : Text.span isWord (bracketed rlType body) = (rlType, '[' :: body ++ [']']) := by
    have ha : ∀ c ∈ rlType, isWord c = true := List.all_eq_true.mp hw
    rw [Text.span, bracketed, List.append_assoc, List.takeWhile_append_of_pos ha, List.dropWhile_append_of_pos ha]
    exact Prod.ext (List.append_nil _) rfl
  rw [inspectItem, hs]
  cases rlType with
  | nil => exact absurd rfl hne
  | cons c rlType => simp

lemma inspectItem_eq_some (h : inspectItem item = some (rlType, body)) : item = bracketed rlType body := by
  have hi : item.takeWhile isWord ++ item.dropWhile isWord = item := List.takeWhile_append_dropWhile
  rw [inspectItem, Text.span] at h
  split at h
  · next c word rest heq =>
    obtain ⟨hw, hr⟩ := Prod.mk.inj heq
    split at h
    · next hl =>
      cases h
      rw [← hi, hw, hr, ← List.dropLast_append_getLast? _ hl]
      simp [bracketed]
    · cases h
  · cases h

lemma recipeName_chars (h : validateRecipeName name = true) : ∀ c ∈ name, c.isAlphanum = true ∨ c ∈ "_@.:-".toList := by
  intro c hc
  rw [validateRecipeName, Bool.and_eq_true, List.all_eq_true] at h
  simpa [or_assoc] using h.1 c hc

lemma not_mem_of_recipeName (h : validateRecipeName name = true) : '[' ∉ name := fun hc =>
  absurd (recipeName_chars h _ hc) (by decide)

lemma inspectItem_of_not_mem (h : '[' ∉ item) : inspectItem item = none := by
  cases hi : inspectItem item with
  | none => rfl
  | some found => exact absurd (by simp [inspectItem_eq_some hi, bracketed]) h

lemma validateRLItem_eq (hne : item ≠ []) (h : ∀ c ∈ item, c.isAlphanum = true ∨ c ∈ "_[]@.:-".toList) :
    validateRLItem item = match inspectItem item with
      | some (rlType, rlItem) =>
        if rlType = "role" ∧ validateRoleName rlItem ∨ rlType = "recipe" ∧ validateRecipeName rlItem
        then .ok item else .error ⟨badRunList, 400⟩
      | none => if validateRecipeName item then .ok ("recipe[" ++ item ++ "]") else .error ⟨badRunList, 400⟩ := by
  refine if_neg (not_or.mpr ⟨hne, not_not.mpr (List.all_eq_true.mpr fun c hc => ?_)⟩)
  simpa [or_assoc] using h c hc

lemma validateRLItem_eq_ok_iff : validateRLItem item = .ok out ↔
    (∃ n, item = bracketed "role" n ∧ validateRoleName n = true ∧ out = item) ∨
      ∃ r, (item = r ∧ r ≠ [] ∨ item = bracketed "recipe" r) ∧ validateRecipeName r = true ∧
        out = bracketed "recipe" r := by
  constructor
  · intro h
    rw [validateRLItem] at h
    split at h
    · cases h
    · next hch =>
      split at h
      · next rlType body hi =>
        have hit := inspectItem_eq_some hi
        split at h
        · next ht =>
          cases h
          obtain ⟨rfl, hn⟩ | ⟨rfl, hr⟩ := ht
          · exact .inl ⟨body, hit, hn, rfl⟩
          · exact .inr ⟨body, .inr hit, hr, hit⟩
        · cases h
      · split at h
        · next hr =>
          cases h
          exact .inr ⟨item, .inl ⟨rfl, fun hne => hch (.inl hne)⟩, hr, by simp [bracketed]⟩
        · cases h
  · have hb (rlType body : Text) (ht : ∀ c ∈ rlType, c.isAlphanum = true)
        (hbd : ∀ c ∈ body, c.isAlphanum = true ∨ c ∈ "_[]@.:-".toList) :
        ∀ c ∈ bracketed rlType body, c.isAlphanum = true ∨ c ∈ "_[]@.:-".toList := by
      simp only [bracketed, List.forall_mem_append, List.forall_mem_cons]
      exact ⟨⟨fun c hc => .inl (ht c hc), by simp, hbd⟩, by simp, by simp⟩
    rintro (⟨n, rfl, hn, rfl⟩ | ⟨r, hit, hr, rfl⟩)
    · have hch : ∀ c ∈ n, c.isAlphanum = true ∨ c ∈ "_[]@.:-".toList := fun c hc => by
        have h : c.isAlphanum = true ∨ c ∈ "_-".toList := by simpa [or_assoc] using List.all_eq_true.mp hn c hc
        exact h.imp_right fun h => (by decide : "_-".toList ⊆ "_[]@.:-".toList) h
      rw [validateRLItem_eq (by simp [bracketed]) (hb _ _ (by decide) hch),
        inspectItem_bracketed (by simp) (by decide)]
      simp [hn]
    · have hch : ∀ c ∈ r, c.isAlphanum = true ∨ c ∈ "_[]@.:-".toList := fun c hc =>
        (recipeName_chars hr c hc).imp_right fun h => (by decide : "_@.:-".toList ⊆ "_[]@.:-".toList) h
      obtain ⟨rfl, hne⟩ | rfl := hit
      · rw [validateRLItem_eq hne hch, inspectItem_of_not_mem (not_mem_of_recipeName hr)]
        simp [hr, bracketed]
      · rw [validateRLItem_eq (by simp [bracketed]) (hb _ _ (by decide) hch),
          inspectItem_bracketed (by simp) (by decide)]
        simp [hr]

lemma validateRLItem_ok (h : validateRLItem item = .ok out) : out = normalForm item ∧ validateRLItem out = .ok out ∧
    ∃ body, out = bracketed "role" body ∨ out = bracketed "recipe" body := by
  obtain ⟨n, rfl, -, rfl⟩ | ⟨r, hi, hr, rfl⟩ := validateRLItem_eq_ok_iff.mp h
  · exact ⟨(if_pos (by simp [bracketed])).symm, h, n, .inl rfl⟩
  · refine ⟨?_, validateRLItem_eq_ok_iff.mpr (.inr ⟨r, .inr rfl, hr, rfl⟩), r, .inr rfl⟩
    obtain ⟨rfl, -⟩ | rfl := hi
    · exact (if_neg (not_mem_of_recipeName hr)).symm
    · exact (if_pos (by simp [bracketed])).symm

lemma recipe_unique {r r' : Text} (hr : '[' ∉ r) (hr' : '[' ∉ r') (h : item = r ∨ item = bracketed "recipe" r)
    (h' : item = r' ∨ item = bracketed "recipe" r') : r = r' := by
  obtain rfl | rfl := h <;> obtain h | h := h'
  · exact h
  · simp [h, bracketed] at hr
  · simp [← h, bracketed] at hr'
  · simpa [bracketed] using h

end

section

variable {rl rl' out out' l : List Text} {x : Text}

lemma removeDupes_append (l : List Text) (u : Text) :
    removeDupes (l ++ [u]) = if u ∈ removeDupes l then removeDupes l else removeDupes l ++ [u] := by
  rw [removeDupes, List.foldl_append]
  rfl

lemma mem_removeDupes : x ∈ removeDupes l ↔ x ∈ l := by
  induction l using List.reverseRecOn with
  | nil => rfl
  | append_singleton l u ih => grind [removeDupes_append]

lemma removeDupes_first (l : List Text) : (removeDupes l).Pairwise fun a b => l.idxOf a < l.idxOf b := by
  induction l using List.reverseRecOn with
  | nil => exact .nil
  | append_singleton l u ih =>
    have ho : (removeDupes l).Pairwise fun a b => (l ++ [u]).idxOf a < (l ++ [u]).idxOf b :=
      ih.imp_of_mem fun ha hb h => by grind [mem_removeDupes]
    rw [removeDupes_append]
    split
    · exact ho
    · refine List.pairwise_append.mpr ⟨ho, List.pairwise_singleton _ _, fun a ha b hb => ?_⟩
      grind [mem_removeDupes]

lemma removeDupes_of_nodup (h : l.Nodup) : removeDupes l = l := by
  induction l using List.reverseRecOn with
  | nil => rfl
  | append_singleton l u ih => grind [removeDupes_append, List.nodup_append]

lemma validateRunList_eq_ok_iff : validateRunList (.arr (rl.map .str)) = .ok out ↔
    (∀ item ∈ rl, validateRLItem item = .ok (normalForm item)) ∧ out = removeDupes (rl.map normalForm) := by
  have hs : chkRunList (.arr (rl.map .str)) = .ok rl := mapM_eq_ok_self_iff.mpr fun _ _ => rfl
  rw [validateRunList, hs]
  constructor
  · intro h
    obtain ⟨forms, hf, h⟩ := bind_eq_ok (x := rl.mapM validateRLItem) h
    have hi : ∀ item ∈ rl, validateRLItem item = .ok (normalForm item) := by
      intro item hit
      obtain ⟨form, -, hfr⟩ := forall₂_mem_right (mapM_eq_ok_iff.mp hf).flip hit
      rwa [← (validateRLItem_ok hfr).1]
    cases (mapM_ok hi).symm.trans hf
    exact ⟨hi, (ok_eq_ok_iff.mp h).symm⟩
  · rintro ⟨hi, rfl⟩
    exact bind_eq_ok_iff.mpr ⟨rl, rfl, bind_eq_ok_iff.mpr ⟨_, mapM_ok hi, rfl⟩⟩

def SameItem (a b : Text) : Prop := a = b ∨ a = bracketed "recipe" b ∨ b = bracketed "recipe" a

lemma normalForm_bracketed {r out : Text} (h : validateRLItem (bracketed "recipe" r) = .ok out) :
    normalForm (bracketed "recipe" r) = normalForm r := by
  have hr : '[' ∉ r := by
    obtain ⟨n, heq, -⟩ | ⟨r', ⟨rfl, -⟩ | heq, hr', -⟩ := validateRLItem_eq_ok_iff.mp h
    · simp [bracketed] at heq
    · exact absurd (by simp [bracketed]) (not_mem_of_recipeName hr')
    · have hs : r = r' := by simpa [bracketed] using heq
      exact hs ▸ not_mem_of_recipeName hr'
  rw [normalForm, normalForm, if_pos (by simp [bracketed]), if_neg hr]

lemma map_normalForm_same (h : List.Forall₂ SameItem rl rl')
    (hrl : ∀ item ∈ rl, validateRLItem item = .ok (normalForm item))
    (hr' : ∀ item ∈ rl', validateRLItem item = .ok (normalForm item)) : rl'.map normalForm = rl.map normalForm := by
  induction h with
  | nil => rfl
  | cons hab _ ih =>
    rw [List.forall_mem_cons] at hrl hr'
    rw [List.map_cons, List.map_cons, ih hrl.2 hr'.2]
    obtain rfl | rfl | rfl := hab
    · rfl
    · rw [normalForm_bracketed hrl.1]
    · rw [normalForm_bracketed hr'.1]

theorem validateRunList_normalises (h : validateRunList (.arr (rl.map .str)) = .ok out) :
    (∀ item ∈ out, ∃ body, item = bracketed "role" body ∨ item = bracketed "recipe" body) ∧ out.Nodup ∧
      (∀ item, item ∈ out ↔ item ∈ rl.map normalForm) ∧
      out.Pairwise (fun a b => (rl.map normalForm).idxOf a < (rl.map normalForm).idxOf b) ∧
      validateRunList (.arr (out.map .str)) = .ok out ∧
      ∀ rl' out', List.Forall₂ SameItem rl rl' → validateRunList (.arr (rl'.map .str)) = .ok out' → out' = out := by
  obtain ⟨hi, rfl⟩ := validateRunList_eq_ok_iff.mp h
  have hok : ∀ u ∈ removeDupes (rl.map normalForm), validateRLItem u = .ok u ∧
      ∃ body, u = bracketed "role" body ∨ u = bracketed "recipe" body := by
    intro u hu
    obtain ⟨item, hit, rfl⟩ := List.mem_map.mp (mem_removeDupes.mp hu)
    exact (validateRLItem_ok (hi item hit)).2
  have hs : ∀ u ∈ removeDupes (rl.map normalForm), normalForm u = u := fun u hu =>
    (validateRLItem_ok (hok u hu).1).1.symm
  have hf := removeDupes_first (rl.map normalForm)
  have hn : (removeDupes (rl.map normalForm)).Nodup := hf.imp fun hlt heq => absurd (heq ▸ hlt) (lt_irrefl _)
  refine ⟨fun u hu => (hok u hu).2, hn, fun _ => mem_removeDupes, hf, ?_, fun rl' out' hsm h' => ?_⟩
  · refine validateRunList_eq_ok_iff.mpr ⟨fun u hu => (hs u hu).symm ▸ (hok u hu).1, ?_⟩
    rw [List.map_congr_left hs, List.map_id', removeDupes_of_nodup hn]
  · obtain ⟨hi', rfl⟩ := validateRunList_eq_ok_iff.mp h'
    rw [map_normalForm_same hsm hi hi']

def mixed : List Text := ["nginx", "role[web]", "recipe[nginx]"]

theorem validateRunList_normalises_mixed :
    validateRunList (.arr (mixed.map .str)) = .ok ["recipe[nginx]", "role[web]"] ∧
      validateRunList (.arr (["recipe[nginx]".toList, "role[web]"].map .str)) = .ok ["recipe[nginx]", "role[web]"] :=
  have h : validateRunList (.arr (mixed.map .str)) = .ok ["recipe[nginx]", "role[web]"] := by decide +kernel
  ⟨h, (validateRunList_normalises h).2.2.2.2.1⟩

end

section

variable {s r c name version t : Text} {P Q : Text → Prop}

def Part (t : Text) : Prop := t ≠ [] ∧ ∀ c ∈ t, c.isAlphanum = true ∨ c ∈ "_-.".toList

def Plain (t : Text) : Prop := t ≠ [] ∧ ':' ∉ t ∧ '@' ∉ t

/-- `c` or `c::p`. -/
def Named (P : Text → Prop) (c name : Text) : Prop := P c ∧ (name = c ∨ ∃ p, P p ∧ name = c ++ ':' :: ':' :: p)

def Recipe (c name r : Text) : Prop :=
  Named Part c name ∧ (r = name ∨ ∃ version, isRecipeVersion version = true ∧ r = name ++ '@' :: version)

def InGrammar (s : Text) : Prop :=
  (∃ n, s = bracketed "role" n ∧ n ≠ [] ∧ validateRoleName n = true) ∨
    ∃ r c name, (s = r ∨ s = bracketed "recipe" r) ∧ Recipe c name r

/-- The item is accepted exactly if it is in the grammar, and `DependsCookbooks` splits its pin. -/
structure Exact (s : Text) : Prop where
  accepts : (∃ out, validateRLItem s = .ok out) ↔ InGrammar s
  splits : ∀ r out, (s = r ∨ s = bracketed "recipe" r) → '[' ∉ r → '@' ∈ r → validateRLItem s = .ok out →
    ∃ c name version, Named Part c name ∧ isRecipeVersion version = true ∧ r = name ++ '@' :: version ∧
      Cookbooks.parseItem r = (c, some (Cookbooks.pinPrefix ++ version))

/-- What the check of a recipe leaves out. -/
def WellNamed (r : Text) : Prop :=
  ∃ c name, Named Plain c name ∧ (r = name ∨ ∃ version, '@' ∉ version ∧ r = name ++ '@' :: version)

lemma recipeVersion_chars (h : isRecipeVersion version = true) : ∀ c ∈ version, c.isDigit = true ∨ c = '.' := by
  have hj : ['.'].intercalate (version.splitOn '.') = version := List.intercalate_splitOn '.'
  rw [isRecipeVersion] at h
  rw [← hj]
  split at h <;> simp_all [List.intercalate] <;> grind

lemma Named.imp (h : Named P c name) (hi : ∀ t, (∀ x ∈ t, x ∈ name) → P t → Q t) : Named Q c name := by
  obtain ⟨hc, rfl | ⟨p, hp, rfl⟩⟩ := h
  · exact ⟨hi _ (fun _ h => h) hc, .inl rfl⟩
  · exact ⟨hi c (by simp +contextual) hc, .inr ⟨p, hi p (by simp +contextual) hp, rfl⟩⟩

lemma Part.plain (h : Part t) : Plain t :=
  ⟨h.1, fun hc => absurd (h.2 _ hc) (by decide), fun hc => absurd (h.2 _ hc) (by decide)⟩

lemma Named.chars (h : Named Part c name) : ∀ x ∈ name, x.isAlphanum = true ∨ x ∈ ":_-.".toList := by
  obtain ⟨hc, rfl | ⟨p, hp, rfl⟩⟩ := h
  · exact fun x hx => (hc.2 x hx).imp_right (.tail _)
  · simp only [List.forall_mem_append, List.forall_mem_cons]
    exact ⟨fun x hx => (hc.2 x hx).imp_right (.tail _), by decide, by decide,
      fun x hx => (hp.2 x hx).imp_right (.tail _)⟩

lemma Named.not_mem (h : Named Plain c name) : '@' ∉ name := by
  obtain ⟨hc, rfl | ⟨p, hp, rfl⟩⟩ := h
  · exact hc.2.2
  · simp [hc.2.2, hp.2.2]

lemma Named.beforeColons (h : Named Plain c name) : Text.beforeColons name = c := by
  obtain ⟨hc, rfl | ⟨p, -, rfl⟩⟩ := h
  · simpa [Text.beforeColons] using Text.beforeColons_append [] hc.2.1
  · simp [Text.beforeColons_append _ hc.2.1, Text.beforeColons]

lemma splitOn_pin (hn : '@' ∉ name) (hv : '@' ∉ version) : (name ++ '@' :: version).splitOn '@' = [name, version] := by
  rw [List.splitOn_append_cons_self, List.splitOn_eq_singleton hn, List.splitOn_eq_singleton hv]
  rfl

lemma recipe_iff : (∃ c name, Recipe c name r) ↔ validateRecipeName r = true ∧ WellNamed r := by
  constructor
  · rintro ⟨c, name, hn, hr⟩
    have hpl := hn.imp fun _ _ => Part.plain
    have hc : ∀ x ∈ name, x.isAlphanum = true ∨ x ∈ "_@.:-".toList := fun x hx =>
      (hn.chars x hx).imp_right fun h => (by decide : ":_-.".toList ⊆ "_@.:-".toList) h
    obtain rfl | ⟨version, hv, rfl⟩ := hr
    · refine ⟨?_, c, _, hpl, .inl rfl⟩
      rw [validateRecipeName, List.splitOn_eq_singleton hpl.not_mem]
      simpa [or_assoc] using hc
    · have hvr := recipeVersion_chars hv
      have hat : '@' ∉ version := fun h => absurd (hvr _ h) (by decide)
      refine ⟨?_, c, name, hpl, .inr ⟨version, hat, rfl⟩⟩
      have ha : ∀ x ∈ name ++ '@' :: version, x.isAlphanum = true ∨ x ∈ "_@.:-".toList := by
        simp only [List.forall_mem_append, List.forall_mem_cons]
        refine ⟨hc, by decide, fun x hx => ?_⟩
        obtain h | rfl := hvr x hx
        · exact .inl (by simp [Char.isAlphanum, h])
        · decide
      rw [validateRecipeName, splitOn_pin hpl.not_mem hat]
      simpa [or_assoc, hv, or_imp, forall_and] using ha
  · rintro ⟨hr, c, name, hn, hnm⟩
    have hc := recipeName_chars hr
    have hpr : ∀ x ∈ name, x ∈ r := by
      obtain rfl | ⟨version, -, rfl⟩ := hnm
      · exact fun _ h => h
      · exact fun _ h => List.mem_append_left _ h
    refine ⟨c, name, hn.imp fun t ht hp => ⟨hp.1, fun x hx => ?_⟩, ?_⟩
    · have hx' := hc x (hpr x (ht x hx))
      have hcl : x ≠ ':' := fun h => hp.2.1 (h ▸ hx)
      have hat : x ≠ '@' := fun h => hp.2.2 (h ▸ hx)
      simpa [hcl, hat, or_comm, or_left_comm] using hx'
    · refine hnm.imp_right fun ⟨version, hv, hr'⟩ => ⟨version, ?_, hr'⟩
      rw [hr', validateRecipeName, splitOn_pin hn.not_mem hv, Bool.and_eq_true] at hr
      exact hr.2

lemma role_ne {n : Text} (hr : '[' ∉ r) : ¬ (bracketed "role" n = r ∨ bracketed "role" n = bracketed "recipe" r) := by
  rintro (rfl | h)
  · simp [bracketed] at hr
  · simp [bracketed] at h

/-- The grammar is exact for every item but `role[]` and recipes with more than one `@` or with empty or too many
parts. -/
theorem exact_iff (s : Text) : Exact s ↔ s ≠ bracketed "role" [] ∧
    ∀ r, (s = r ∧ r ≠ [] ∨ s = bracketed "recipe" r) → validateRecipeName r = true → WellNamed r := by
  constructor
  · rintro ⟨ha, -⟩
    refine ⟨?_, fun r hs hr => ?_⟩
    · rintro rfl
      obtain ⟨n, hn, hne, -⟩ | ⟨r, c, name, hs, hrc⟩ :=
        ha.mp ⟨_, validateRLItem_eq_ok_iff.mpr (.inl ⟨[], rfl, rfl, rfl⟩)⟩
      · exact hne (by simpa [bracketed] using hn.symm)
      · exact role_ne (not_mem_of_recipeName (recipe_iff.mp ⟨c, name, hrc⟩).1) hs
    · have hno := not_mem_of_recipeName hr
      obtain ⟨n, rfl, -⟩ | ⟨r', c, name, hs', hrc⟩ :=
        ha.mp ⟨_, validateRLItem_eq_ok_iff.mpr (.inr ⟨r, hs, hr, rfl⟩)⟩
      · exact absurd (hs.imp_left And.left) (role_ne hno)
      · obtain ⟨hr', hw⟩ := recipe_iff.mp ⟨c, name, hrc⟩
        exact recipe_unique hno (not_mem_of_recipeName hr') (hs.imp_left And.left) hs' ▸ hw
  · rintro ⟨hrl, hrp⟩
    refine ⟨⟨?_, ?_⟩, fun r out hs hno hat h => ?_⟩
    · rintro ⟨out, h⟩
      obtain ⟨n, rfl, hn, -⟩ | ⟨r, hs, hr, -⟩ := validateRLItem_eq_ok_iff.mp h
      · exact .inl ⟨n, rfl, fun hne => hrl (hne ▸ rfl), hn⟩
      · obtain ⟨c, name, hrc⟩ := recipe_iff.mpr ⟨hr, hrp r hs hr⟩
        exact .inr ⟨r, c, name, hs.imp_left And.left, hrc⟩
    · rintro (⟨n, hs, -, hn⟩ | ⟨r, c, name, hs, hrc⟩)
      · exact ⟨_, validateRLItem_eq_ok_iff.mpr (.inl ⟨n, hs, hn, rfl⟩)⟩
      · have hne : r ≠ [] := by
          obtain ⟨⟨hc, rfl | ⟨p, -, rfl⟩⟩, rfl | ⟨version, -, rfl⟩⟩ := hrc <;> simp [hc.1]
        exact ⟨_, validateRLItem_eq_ok_iff.mpr
          (.inr ⟨r, hs.imp_left fun h => ⟨h, hne⟩, (recipe_iff.mp ⟨c, name, hrc⟩).1, rfl⟩)⟩
    · obtain ⟨n, rfl, -⟩ | ⟨r', hs', hr', -⟩ := validateRLItem_eq_ok_iff.mp h
      · exact absurd hs (role_ne hno)
      · cases recipe_unique hno (not_mem_of_recipeName hr') hs (hs'.imp_left And.left)
        obtain ⟨c, name, hn, hrc⟩ := recipe_iff.mpr ⟨hr', hrp r hs' hr'⟩
        have hp := hn.imp fun _ _ => Part.plain
        obtain rfl | ⟨version, hv, rfl⟩ := hrc
        · exact absurd hat hp.not_mem
        · have hvr : '@' ∉ version := fun h => absurd (recipeVersion_chars hv _ h) (by decide)
          refine ⟨c, name, version, hn, hv, rfl, ?_⟩
          rw [Cookbooks.parseItem, splitOn_pin hp.not_mem hvr]
          simp only [hp.beforeColons]

theorem not_exact_twice : validateRLItem "role[]" = .ok "role[]" ∧ ¬ Exact "a@1.0@2.0" := by
  refine ⟨by decide +kernel, fun h => ?_⟩
  have hr : validateRLItem "a@1.0@2.0" = .ok "recipe[a@1.0@2.0]" := by decide +kernel
  obtain ⟨c, name, version, -, -, -, hs⟩ := h.splits _ _ (.inl rfl) (by decide) (by decide) hr
  have hl : (Cookbooks.parseItem "a@1.0@2.0").2 = none := by decide +kernel
  rw [hs] at hl
  cases hl

end

end Goiardi.Objects
