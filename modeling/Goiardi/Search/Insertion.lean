import Goiardi.Search.Minimal

/-! Sorted words put into the automaton one after the other: what is written out in the end is the trie of the words,
as long as no word that is put in twice is continued by another one. -/

namespace Goiardi.Search.Automaton

open List Node

namespace Heap

variable {h h₁ h' : Heap} {id child fuel : ℕ} {n m : Node} {fresh : Bool} {w u : Text} {c : Char}
  {init : List (Char × ℕ)} {kids : List (Char × Node)}

structure Put (h h' : Heap) (id : ℕ) (fresh : Bool) (w : Text) (n : Node) : Prop where
  sound : h'.Sound
  frame : Frame h h' id
  spine : h'.Spine fresh id w
  shows : h'.Shows id n

lemma Put.lift (hp : Put h h' child fresh w m) (hs : h.Sound) (hid : id ∉ h.registered) (hlt : id < child)
    (hts : (h.nodes id).transitions = init ++ [(c, child)]) (hi : ∀ t ∈ init, t.2 ∈ h.registered)
    (hk : Matches h.Shows init kids) : Put h h' id fresh (c :: w) (.mk (h.nodes id).terminal (kids ++ [(c, m)])) := by
  have hf := hp.frame
  have hsm : h'.nodes id = h.nodes id := hf.same id (.inr hlt)
  have hc : child < h'.nextId := (hs.inside id (c, child) (by simp [hts])).trans_le hf.next
  refine ⟨hp.sound, hf.mono hlt.le, ⟨hf.not_registered hid hlt.le, hlt.trans hc, init, child, hsm ▸ hts,
    fun t ht => hf.kept _ (hi t ht), .inr ⟨hlt, hp.spine⟩⟩, ?_⟩
  rw [shows_iff, hsm, hts]
  exact ⟨_, rfl, matches_concat.mpr ⟨kids, m, rfl, hf.matches_shows hs hi hk, hp.shows⟩⟩

def grow (h : Heap) (id : ℕ) (letters : Text) : Heap :=
  (h.addSuffix id letters).1.setTerminal (h.addSuffix id letters).2

lemma grow_cons (h : Heap) (id : ℕ) (c : Char) (w : Text) :
    h.grow id (c :: w) = (h.addChild id c).1.grow (h.addChild id c).2 w := rfl

lemma addWord_eq (h : Heap) (last : ℕ) (letters : Text) :
    h.addWord last letters = h.minimise last >>= fun h => .ok (h.grow last letters) := rfl

structure Added (h h' : Heap) (id : ℕ) (c : Char) : Prop where
  sound : h'.Sound
  frame : Frame h h' id
  parent : h'.nodes id = ⟨(h.nodes id).terminal, (h.nodes id).transitions ++ [(c, h.nextId)]⟩
  child : h'.nodes h.nextId = ⟨false, []⟩
  registered : h'.registered = h.registered
  next : h'.nextId = h.nextId + 1

lemma addChild_spec (hs : h.Sound) (hid : id ∉ h.registered) (hlt : id < h.nextId)
    (hnn : ∀ t ∈ (h.nodes id).transitions, t.1 ≠ c) :
    (h.addChild id c).2 = h.nextId ∧ Added h (h.addChild id c).1 id c := by
  have hg : h.getChild id c = none := findTransition_eq_none hnn
  have ho (k : ℕ) (hk : k ≠ id) (hk' : k ≠ h.nextId) : ((h.addChild id c).1).nodes k = h.nodes k := by
    rw [addChild, hg]
    exact (set_other _ _ hk).trans (set_other h _ hk')
  have hp : ((h.addChild id c).1).nodes id =
      ⟨(h.nodes id).terminal, (h.nodes id).transitions ++ [(c, h.nextId)]⟩ := by
    have hol : (h.set h.nextId ⟨false, []⟩).nodes id = h.nodes id := set_other h _ hlt.ne
    rw [addChild, hg]
    refine (set_same _ _ _).trans ?_
    dsimp only
    rw [hol]
  have hc : ((h.addChild id c).1).nodes h.nextId = ⟨false, []⟩ := by
    rw [addChild, hg]
    exact (set_other _ _ hlt.ne').trans (set_same h _ _)
  have hr : ((h.addChild id c).1).registered = h.registered := by
    rw [addChild, hg]
    rfl
  have hn : ((h.addChild id c).1).nextId = h.nextId + 1 := by
    rw [addChild, hg]
    rfl
  have hrg (k : ℕ) (hk : k ∈ h.registered) : ((h.addChild id c).1).nodes k = h.nodes k :=
    ho k (fun he => hid (he ▸ hk)) (hs.bounded k hk).ne
  refine ⟨by rw [addChild, hg], hs.change (by rw [addChild, hg]; rfl) hr hrg (by omega) ?_,
    ⟨?_, fun k hk => hr ▸ hk, fun k hk => .inl (hr ▸ hk), by omega⟩, hp, hc, hr,
    hn⟩
  · intro k t ht
    rw [hn]
    by_cases hk : k = id
    · rw [hk, hp] at ht
      rcases mem_append.mp ht with ht | ht
      · exact (hs.inside id t ht).trans (Nat.lt_succ_self _)
      · rw [mem_singleton.mp ht]
        exact Nat.lt_succ_self _
    · by_cases hk' : k = h.nextId
      · rw [hk', hc] at ht
        cases ht
      · rw [ho k hk hk'] at ht
        exact (hs.inside k t ht).trans (Nat.lt_succ_self _)
  · rintro k (hk | hk)
    · exact hrg k hk
    · exact ho k hk.ne (hk.trans hlt).ne

lemma setTerminal_same (h : Heap) (id : ℕ) : (h.setTerminal id).nodes id = ⟨true, (h.nodes id).transitions⟩ :=
  set_same h _ _

lemma setTerminal_other {k : ℕ} (hk : k ≠ id) : (h.setTerminal id).nodes k = h.nodes k := set_other h _ hk

lemma setTerminal_transitions (h : Heap) (id k : ℕ) : ((h.setTerminal id).nodes k).transitions = (h.nodes k).transitions := by
  by_cases hk : k = id
  · rw [hk, setTerminal_same]
  · rw [setTerminal_other hk]

lemma setTerminal_sound (hs : h.Sound) (hid : id ∉ h.registered) : (h.setTerminal id).Sound := by
  refine hs.change rfl rfl (fun k hk => setTerminal_other fun he => hid (he ▸ hk)) le_rfl fun k t ht => ?_
  rw [setTerminal_transitions] at ht
  exact hs.inside k t ht

lemma setTerminal_frame (hid : id ∉ h.registered) : Frame h (h.setTerminal id) id := by
  refine ⟨fun k hk => setTerminal_other ?_, fun _ hk => hk, fun _ => .inl, le_rfl⟩
  rintro rfl
  exact hk.elim hid (lt_irrefl _)

-- a node without transitions gets the rest of the word
lemma grow_leaf (hs : h.Sound) (hid : id ∉ h.registered) (hlt : id < h.nextId) (hr : h.nodes id = ⟨false, []⟩) :
    Put h (h.grow id w) id true w (.chain w) := by
  induction w generalizing h id with
  | nil =>
    have he : ((h.setTerminal id).nodes id).transitions = [] := by rw [setTerminal_transitions, hr]
    refine ⟨setTerminal_sound hs hid, setTerminal_frame hid, ⟨rfl, hid, hlt, he⟩, ?_⟩
    rw [shows_iff]
    change ∃ kids, chain [] = .mk ((h.setTerminal id).nodes id).terminal kids ∧ _
    rw [setTerminal_same, hr]
    exact ⟨[], rfl, he ▸ .nil⟩
  | cons c w ih =>
    obtain ⟨hf, ha⟩ := addChild_spec (c := c) hs hid hlt (by simp [hr])
    have hp := ha.parent
    rw [hr] at hp
    have hn : h.nextId ∉ ((h.addChild id c).1).registered :=
      ha.registered ▸ fun hin => lt_irrefl _ (hs.bounded _ hin)
    have hb := ih ha.sound hn (by rw [ha.next]; omega) ha.child
    have ht : ((h.addChild id c).1.nodes id).transitions = [] ++ [(c, h.nextId)] := by rw [hp]
    have hpt := hb.lift ha.sound (ha.registered ▸ hid) hlt ht (by simp) .nil
    rw [grow_cons, hf]
    rw [hp] at hpt
    exact ⟨hpt.sound, ha.frame.trans hpt.frame, hpt.spine, hpt.shows⟩

lemma grow_branch (hs : h.Sound) (hid : id ∉ h.registered) (hlt : id < h.nextId)
    (hst : ∀ t ∈ (h.nodes id).transitions, t.2 ∈ h.registered) (hn : ∀ t ∈ (h.nodes id).transitions, t.1 ≠ c)
    (hk : Matches h.Shows (h.nodes id).transitions kids) :
    Put h (h.grow id (c :: w)) id true (c :: w) (.mk (h.nodes id).terminal (kids ++ [(c, .chain w)])) := by
  obtain ⟨hf, ha⟩ := addChild_spec hs hid hlt hn
  have hnw : h.nextId ∉ ((h.addChild id c).1).registered :=
    ha.registered ▸ fun hin => lt_irrefl _ (hs.bounded _ hin)
  have hb := grow_leaf (w := w) ha.sound hnw (by rw [ha.next]; omega) ha.child
  have hp := hb.lift (c := c) ha.sound (ha.registered ▸ hid) hlt (by simp [ha.parent])
    (ha.registered ▸ hst) (ha.frame.matches_shows hs hst hk)
  rw [grow_cons, hf]
  rw [ha.parent] at hp
  exact ⟨hp.sound, ha.frame.trans hp.frame, hp.spine, hp.shows⟩

def put (h : Heap) (id : ℕ) (letters : Text) : Except Failure Heap :=
  h.addWord (h.lastCommonState id letters).1 (h.lastCommonState id letters).2

lemma put_found (hg : h.getChild id c = some child) (hw : w ≠ []) : h.put id (c :: w) = h.put child w := by
  rw [put, lastCommonState, hg]
  dsimp only
  rw [if_neg hw, put]

lemma put_branch {t : Bool} (hs : h.Sound) (hsp : h.Spine fresh id w) (hn : h.Shows id (.mk t kids))
    (ha : ∀ k ∈ kids, k.1 < c) :
    ∃ h', h.put id (c :: u) = .ok h' ∧ Put h h' id true (c :: u) (.insert (.mk t kids) (c :: u)) := by
  obtain ⟨kids', hmk, hkd⟩ := shows_iff.mp hn
  obtain ⟨rfl, rfl⟩ := Node.mk.inj hmk
  obtain ⟨h₁, hr, hm⟩ := minimise_spine hs hsp
  obtain ⟨kids', hmk, hk'⟩ := shows_iff.mp (hm.shows.mpr hn)
  obtain ⟨ht, rfl⟩ := Node.mk.inj hmk
  have hnn : ∀ t ∈ (h.nodes id).transitions, t.1 ≠ c :=
    (hkd.forall_label (p := (· ≠ c))).mpr fun k hk => (ha k hk).ne
  have hn' : ∀ t ∈ (h₁.nodes id).transitions, t.1 ≠ c :=
    (hk'.forall_label (p := (· ≠ c))).mpr fun k hk => (ha k hk).ne
  have hp := grow_branch (w := u) hm.sound (hm.frame.not_registered hsp.not_registered le_rfl)
    (hm.next ▸ hsp.lt_nextId) hm.settled hn' hk'
  rw [put, lastCommonState, show h.getChild id c = none from findTransition_eq_none hnn, addWord_eq, hr, Node.insert_above ha, ht]
  exact ⟨_, rfl, hp.sound, hm.frame.trans hp.frame, hp.spine, hp.shows⟩

lemma put_new (hs : h.Sound) (hsp : h.Spine fresh id w) (hn : h.Shows id n) (hp : n.Proper) (hw : w < u)
    (hcl : fresh = false → ¬ w <+: u) : ∃ h', h.put id u = .ok h' ∧ Put h h' id true u (n.insert u) := by
  induction u generalizing id n w with
  | nil => exact absurd hw (not_lt_nil _)
  | cons c u ih =>
    obtain ⟨kids, rfl, hkd⟩ := shows_iff.mp hn
    cases w with
    | nil =>
      have hnl : kids = [] := by
        rw [hsp.2.2.2] at hkd
        exact forall₂_nil_left_iff.mp hkd
      exact put_branch hs hsp hn (by simp [hnl])
    | cons d w =>
      have hs' := hsp
      obtain ⟨hid, hlt, init, child, hts, hin, hch⟩ := hs'
      rw [hts] at hkd
      have hi : Increasing (init ++ [(d, child)]) := hkd.increasing hp.labels_increasing
      obtain ⟨kinit, m, rfl, hkn, hm⟩ := matches_concat.mp hkd
      rcases cons_lt_cons_iff.mp hw with hdc | ⟨rfl, hwu⟩
      · refine put_branch hs hsp hn fun k hk => ?_
        rcases mem_append.mp hk with hk | hk
        · exact ((increasing_concat.mp hp.labels_increasing).2 k hk).trans hdc
        · rw [mem_singleton.mp hk]
          exact hdc
      · have hu : u ≠ [] := by
          rintro rfl
          exact absurd hwu (not_lt_nil _)
        have hg : h.getChild id d = some child := by
          rw [getChild, hts]
          exact findTransition_last hi
        rcases hch with ⟨hc, rfl, -⟩ | ⟨hl, hb⟩
        · exact absurd (cons_prefix_cons.mpr ⟨rfl, nil_prefix⟩) (hcl hc)
        · obtain ⟨h', hr, hpt⟩ := ih hb hm (hp.of_mem (c := d) (by simp)) hwu
            fun hc hpr => hcl hc (cons_prefix_cons.mpr ⟨rfl, hpr⟩)
          rw [put_found hg hu, insert_last hp.labels_increasing hu]
          exact ⟨h', hr, hpt.lift hs hid hl hts hin hkn⟩

lemma put_again (hs : h.Sound) (hsp : h.Spine fresh id w) (hn : h.Shows id n) (hp : n.Proper) (hw : w ≠ []) :
    ∃ h', h.put id w = .ok h' ∧ Put h h' id false w (n.insert w) := by
  induction w generalizing id n with
  | nil => exact absurd rfl hw
  | cons c w ih =>
    obtain ⟨kids, rfl, hk⟩ := shows_iff.mp hn
    obtain ⟨hid, hlt, init, child, hts, hin, hc⟩ := hsp
    rw [hts] at hk
    have hi : Increasing (init ++ [(c, child)]) := hk.increasing hp.labels_increasing
    obtain ⟨kinit, m, rfl, hkn, hm⟩ := matches_concat.mp hk
    have hg : h.getChild id c = some child := by
      rw [getChild, hts]
      exact findTransition_last hi
    by_cases hnl : w = []
    · subst hnl
      have hen : h.Leaf child ∨ id < child ∧ child ∉ h.registered ∧ h.nodes child = leaf := by
        rcases hc with ⟨-, -, hl⟩ | ⟨hls, -, hc, -, he⟩
        · exact .inl hl
        · refine .inr ⟨hls, hc, ?_⟩
          obtain ⟨below, rfl, hb⟩ := shows_iff.mp hm
          rw [he] at hb
          obtain rfl := forall₂_nil_left_iff.mp hb
          have hlv : (Node.mk (h.nodes child).terminal []).terminal = true ∨ _ := hp.terminal_or (c := c) (by simp)
          have htr := hlv.resolve_right (not_not.mpr rfl)
          exact congrArg₂ Record.mk htr he
      obtain ⟨h₁, e, hr, hmn, ht', hl⟩ := minimise_end hs hid hlt hts hin hen
      have hi' := hmn.frame.not_registered hid le_rfl
      obtain ⟨kids', hmk, hk'⟩ := shows_iff.mp (hmn.shows.mpr hn)
      obtain ⟨-, rfl⟩ := Node.mk.inj hmk
      rw [show h.put id [c] = h.addWord id [] by rw [put, lastCommonState, hg]; rfl, addWord_eq, hr, Node.insert_end hp.labels_increasing]
      refine ⟨_, rfl, setTerminal_sound hmn.sound hi', hmn.frame.trans (setTerminal_frame hi'), ⟨hi',
        hmn.next ▸ hlt, init, e, (setTerminal_transitions _ _ _).trans ht', fun t ht => hmn.frame.kept _ (hin t ht),
        .inl ⟨rfl, rfl, hl.isRegistered, ?_, hl.found⟩⟩, ?_⟩
      · refine (setTerminal_other ?_).trans hl.record
        rintro rfl
        exact hi' hl.isRegistered
      · rw [shows_iff]
        change ∃ kids, _ = Node.mk ((h₁.setTerminal id).nodes id).terminal kids ∧
          Matches (h₁.setTerminal id).Shows ((h₁.setTerminal id).nodes id).transitions kids
        rw [setTerminal_same]
        exact ⟨_, rfl, (setTerminal_frame hi').matches_shows hmn.sound hmn.settled hk'⟩
    · rcases hc with ⟨-, hw, -⟩ | ⟨hls, hb⟩
      · exact absurd hw hnl
      · obtain ⟨h', hr, hpt⟩ := ih hb hm (hp.of_mem (c := c) (by simp)) hnl
        rw [put_found hg hnl, Node.insert_last hp.labels_increasing hnl]
        exact ⟨h', hr, hpt.lift hs hid hls hts hin hkn⟩

def Closed (words : List Text) : Prop := ∀ w u, List.Duplicate w words → u ∈ words → w <+: u → u = w

lemma Closed.of_concat {words : List Text} (h : Closed (words ++ [u])) : Closed words :=
  fun w v hw hv hp => h w v (duplicate_concat.mpr (.inl hw)) (mem_append_left _ hv) hp

structure Holds (h : Heap) (words : List Text) (fresh : Bool) : Prop where
  sound : h.Sound
  spine : h.Spine fresh 0 (words.getLastD [])
  shows : h.Shows 0 (.ofWords words)
  again : fresh = false → List.Duplicate (words.getLastD []) words

lemma start_holds : start.Holds [] true where
  sound := ⟨by simp [start], by simp [start], by simp [start], by simp [start], by simp [start], by simp [start]⟩
  spine := ⟨rfl, by simp [start], Nat.one_pos, rfl⟩
  shows := ⟨1, rfl⟩
  again := by simp

lemma insertWord_holds {words : List Text} (hh : h.Holds words fresh) (hsr : (words ++ [u]).Pairwise (· ≤ ·))
    (hne : ∀ w ∈ words ++ [u], w ≠ []) (hc : Closed (words ++ [u])) :
    ∃ h' fresh', h.insertWord u = .ok h' ∧ h'.Holds (words ++ [u]) fresh' := by
  obtain ⟨hs, hsp, hsh, ha⟩ := hh
  have hu : u ≠ [] := hne u (by simp)
  have hwr := (pairwise_append.mp hsr).1
  have hpr := (ofWords_spec hwr fun w hw => hne w (mem_append_left _ hw)).1
  rw [insertWord, if_neg hu, ← put]
  rcases last_le_or hsr hu with ⟨hm, hl⟩ | ⟨hm, hl⟩
  · rw [hl] at hsp
    obtain ⟨h', hr, hp⟩ := put_again hs hsp hsh hpr hu
    refine ⟨h', false, hr, hp.sound, ?_, ?_, fun _ => ?_⟩
    · rw [getLastD_concat]
      exact hp.spine
    · rw [ofWords_concat]
      exact hp.shows
    · rw [getLastD_concat]
      exact duplicate_concat.mpr (.inr ⟨rfl, hm⟩)
  · have ho : fresh = false → ¬ words.getLastD [] <+: u := by
      intro hf hpe
      have hd : List.Duplicate (words.getLastD []) (words ++ [u]) := duplicate_concat.mpr (.inl (ha hf))
      exact absurd (hc _ u hd (by simp) hpe) hl.ne'
    obtain ⟨h', hr, hp⟩ := put_new hs hsp hsh hpr hl ho
    refine ⟨h', true, hr, hp.sound, ?_, ?_, by simp⟩
    · rw [getLastD_concat]
      exact hp.spine
    · rw [ofWords_concat]
      exact hp.shows

lemma insertWords_holds {words : List Text} (hs : words.Pairwise (· ≤ ·)) (hne : ∀ w ∈ words, w ≠ [])
    (hc : Closed words) : ∃ h fresh, words.foldlM insertWord start = .ok h ∧ h.Holds words fresh := by
  induction words using List.reverseRecOn with
  | nil => exact ⟨start, true, rfl, start_holds⟩
  | append_singleton words u ih =>
    obtain ⟨h, fresh, hr, hh⟩ := ih (pairwise_append.mp hs).1 (fun w hw => hne w (mem_append_left _ hw))
      hc.of_concat
    obtain ⟨h', fresh', hr', hh'⟩ := insertWord_holds hh hs hne hc
    refine ⟨h', fresh', ?_, hh'⟩
    rw [foldlM_append, hr, ok_bind, foldlM_cons, hr']
    rfl

lemma Sound.unfold_root (hs : h.Sound) (hr : 0 ∉ h.registered) (hp : 0 < h.nextId)
    (hst : ∀ t ∈ (h.nodes 0).transitions, t.2 ∈ h.registered) (hn : h.Shows 0 n) : h.unfold h.nextId 0 = some n := by
  have hl : (0 :: h.registered).length ≤ h.nextId := by
    have hsb : 0 :: h.registered ⊆ List.range h.nextId := by
      intro k hk
      rcases mem_cons.mp hk with rfl | hk
      · exact mem_range.mpr hp
      · exact mem_range.mpr (hs.bounded k hk)
    simpa using (nodup_cons.mpr ⟨hr, hs.nodup⟩).length_le_of_subset hsb
  obtain ⟨m, hm⟩ := exists_unfold fun t ht => hs.shows t.2 (hst t ht)
  have hm' := unfold_mono hm hl
  rw [hm', Shows.unique ⟨_, hm'⟩ hn]

end Heap

theorem build_of_words {words : List Text} (hw : words ≠ []) (hsr : words.Pairwise (· ≤ ·))
    (hne : ∀ w ∈ words, w ≠ []) (hc : Heap.Closed words) :
    build words = .ok ⟨.ok (.ofWords words), .ok (Text.join ['\n'] words)⟩ := by
  obtain ⟨h, fresh, hr, hs, hsp, hsh, -⟩ := Heap.insertWords_holds hsr hne hc
  have hl : words.getLastD [] ≠ [] := by
    rw [getLastD_eq_getLast?, List.getLast?_eq_some_getLast hw]
    exact hne _ (getLast_mem hw)
  obtain ⟨h', hr', hm⟩ := Heap.replaceOrRegister_spine hs hl hsp (zero_add h.nextId).ge
  have hcr : Heap.create words = .ok h' := by
    rw [Heap.create, if_pos (isChain_iff_pairwise.mpr hsr), hr, ok_bind, hr']
  have hu := hm.sound.unfold_root (hm.frame.not_registered hsp.not_registered le_rfl)
    (hm.next ▸ hsp.lt_nextId) hm.settled (hm.shows.mpr hsh)
  rw [build, hcr, ok_bind, hu]
  rfl

/-- The automaton of sorted words accepts the words and, of a word that was put in twice, also all but its last letter. -/
theorem build_accepts {words : List Text} (hw : words ≠ []) (hsr : words.Pairwise (· ≤ ·))
    (hne : ∀ w ∈ words, w ≠ []) (hc : Heap.Closed words) : ∃ doc trie, build words = .ok doc ∧ doc.trie = .ok trie ∧
      ∀ x, trie.accepts x = true ↔ x ∈ words ∨ ∃ c, Duplicate (x ++ [c]) words :=
  ⟨_, _, build_of_words hw hsr hne hc, rfl, (ofWords_spec hsr hne).2.2⟩

theorem build_accepts_twice : ∃ doc trie, build ["ab", "ab"] = .ok doc ∧ doc.trie = .ok trie ∧ trie.accepts "a" = true := by
  have hc : Heap.Closed ["ab", "ab"] := fun w u hw hu _ => by
    have := hw.mem
    simp_all
  obtain ⟨doc, trie, hb, ht, ha⟩ := build_accepts (by simp) (by simp) (by simp) hc
  exact ⟨doc, trie, hb, ht, (ha _).mpr (.inr ⟨'b', by decide⟩)⟩

end Goiardi.Search.Automaton
