import Goiardi.Search.Postgres

/-! The statement of a Postgres search: each `_ARG_` of its condition becomes the next placeholder, and the parentheses
of every clause match. -/

namespace Goiardi.Search.Postgres

open Sql List

section

def Clean (w : Text) : Prop := ∀ k rest, replaceArgs k 0 (w ++ rest) = w ++ replaceArgs k 0 rest

def untouched (w : Text) : Bool :=
  w.tails.all fun s => s.isEmpty || (!argText.isPrefixOf s && !s.isPrefixOf argText)

variable {w w' : Text}

lemma clean_nil : Clean [] := fun _ _ => rfl

lemma Clean.append (h : Clean w) (h' : Clean w') : Clean (w ++ w') := by
  intro k rest
  rw [append_assoc, h, h', append_assoc]

lemma clean_cons {c : Char} (hc : ∀ rest, argText.isPrefixOf (c :: (w ++ rest)) = false) (h : Clean w) :
    Clean (c :: w) := by
  intro k rest
  rw [cons_append, replaceArgs, if_neg (by simp [hc rest]), h, cons_append]

lemma clean_of_not_mem (h : '_' ∉ w) : Clean w := by
  induction w with
  | nil => exact clean_nil
  | cons c w ih =>
    obtain ⟨hc, hw⟩ := not_or.mp (mt mem_cons.mpr h)
    refine clean_cons (fun rest => ?_) (ih hw)
    simp [argText, List.isPrefixOf, hc]

lemma clean_of_untouched (h : untouched w = true) : Clean w := by
  induction w with
  | nil => exact clean_nil
  | cons c w ih =>
    simp only [untouched, tails_cons, all_cons, Bool.and_eq_true] at h
    obtain ⟨hh, ht⟩ := h
    refine clean_cons (fun rest => ?_) (ih ht)
    simp only [isEmpty_cons, Bool.false_or, Bool.and_eq_true, Bool.not_eq_true'] at hh
    obtain ⟨hl, hs⟩ := hh
    rw [Bool.eq_false_iff] at hl hs ⊢
    rw [Ne, isPrefixOf_iff_prefix] at hl hs ⊢
    intro hp
    rcases prefix_or_prefix_of_prefix hp (prefix_append (c :: w) rest) with h | h
    · exact hl h
    · exact hs h

lemma replaceArgs_arg (k : ℕ) (rest : Text) :
    replaceArgs k 0 (argText ++ rest) = placeholder k ++ replaceArgs (k + 1) 0 rest := by
  have hp : argText.isPrefixOf (argText ++ rest) = true := isPrefixOf_iff_prefix.mpr (prefix_append _ _)
  have ha : argText = '_' :: "ARG_" := rfl
  rw [ha, cons_append, replaceArgs, if_pos (by rw [← cons_append, ← ha]; exact hp)]
  rfl

end

section

structure Part (w : Text) (ns : List ℕ) (opened left : ℕ) : Prop where
  clean : Clean w
  starts : Starts w
  numbers : placeholders w = ns
  depth : ∀ d, depth (opened + d) w = some (left + d)

variable {w w' : Text} {n m : List ℕ} {a b c : ℕ}

lemma part_nil : Part [] [] 0 0 := ⟨clean_nil, starts_nil, rfl, fun _ => rfl⟩

lemma Part.append (h : Part w n a b) (h' : Part w' m b c) : Part (w ++ w') (n ++ m) a c where
  clean := h.clean.append h'.clean
  starts := h.starts.append h'.starts
  numbers := by rw [placeholders_append h'.starts, h.numbers, h'.numbers]
  depth := fun d => by rw [depth_append, h.depth, Option.bind_some, h'.depth]

lemma Part.lift (h : Part w n a b) (k : ℕ) : Part w n (a + k) (b + k) where
  clean := h.clean
  starts := h.starts
  numbers := h.numbers
  depth := fun d => by rw [Nat.add_assoc, h.depth, Nat.add_assoc]

lemma Part.neutral (h : Part w n 0 0) : Neutral w := fun d => by simpa using h.depth d

lemma part_literal (n : List ℕ) (a b : ℕ) {l : List Char}
    (h : (untouched l && !(l.head?.any Char.isDigit) && placeholders l == n && Sql.depth a l == some b) = true) :
    Part (String.ofList l).toList n a b := by
  simp only [Bool.and_eq_true, Bool.not_eq_true', beq_iff_eq] at h
  obtain ⟨⟨⟨hcl, hs⟩, hn⟩, hd⟩ := h
  rw [String.toList_ofList]
  refine ⟨clean_of_untouched hcl, fun c hc => ?_, hn, depth_add hd⟩
  rw [hc] at hs
  exact hs

lemma part_quiet {l : List Char}
    (h : (untouched l && !(l.head?.any Char.isDigit) && placeholders l == [] && Sql.depth 0 l == some 0) = true) :
    Part (String.ofList l).toList [] 0 0 :=
  part_literal [] 0 0 h

end

section

def Piece.slots : Piece → ℕ
  | test _ _ _ => 1
  | absent => 1
  | _ => 0

def slots (c : Clause) : ℕ := (c.map Piece.slots).sum

def testText (table : ℕ) (column : Column) (c : Comparison) : Text :=
  tableText table ++ '.' :: column.text ++ ' ' :: c.text ++ [' ']

def Piece.numbered (k : ℕ) : Piece → Text
  | test table column c => testText table column c ++ placeholder k
  | absent => absentText ++ placeholder k ++ [')']
  | p => p.text

def numbered : ℕ → Clause → Text
  | _, [] => []
  | k, p :: c => p.numbered k ++ numbered (k + p.slots) c

variable {k : ℕ} {c c' : Clause}

@[simp] lemma slots_nil : slots [] = 0 := rfl

@[simp] lemma slots_cons (p : Piece) : slots (p :: c) = p.slots + slots c := by simp [slots]

@[simp] lemma slots_append : slots (c ++ c') = slots c + slots c' := by simp [slots]

lemma numbered_append : numbered k (c ++ c') = numbered k c ++ numbered (k + slots c) c' := by
  induction c generalizing k with
  | nil => rfl
  | cons p c ih => rw [cons_append, numbered, numbered, ih, slots_cons, append_assoc, Nat.add_assoc]

def testLetters : Text := "f.pathvlue OPERATOR(goiardi.~)=<>LIKENOT"

lemma tests_over (column : Column) (c : Comparison) :
    (∀ d ∈ '.' :: column.text ++ ' ' :: c.text ++ [' '], d ∈ testLetters) ∧
      Matched ('.' :: column.text ++ ' ' :: c.text ++ [' ']) := by
  unfold Matched
  cases column <;> cases c
  case path.above e | path.below e | path.pathAbove e | path.pathBelow e | value.above e | value.below e
    | value.pathAbove e | value.pathBelow e => cases e <;> decide
  all_goals decide

lemma testText_eq (table : ℕ) (column : Column) (c : Comparison) :
    testText table column c = tableText table ++ ('.' :: column.text ++ ' ' :: c.text ++ [' ']) := by
  simp [testText]

lemma not_mem_tableText {d : Char} (hd : d.isDigit = false) (hl : d ∉ testLetters) (table : ℕ) :
    d ∉ tableText table := by
  rw [tableText, mem_cons, not_or]
  refine ⟨?_, Text.not_mem_formatNat hd table⟩
  rintro rfl
  exact hl (by decide)

lemma not_mem_testText {d : Char} (hd : d.isDigit = false) (hl : d ∉ testLetters) (table : ℕ) (column : Column)
    (c : Comparison) : d ∉ testText table column c := by
  rw [testText_eq, mem_append, not_or]
  exact ⟨not_mem_tableText hd hl table, fun h => hl ((tests_over column c).1 d h)⟩

lemma part_absentText : Part absentText [] 0 1 :=
  (part_literal [] 0 1 rfl).append (part_literal [] 1 1 rfl)

lemma replaceArgs_piece (p : Piece) (rest : Text) :
    replaceArgs k 0 (p.text ++ rest) = p.numbered k ++ replaceArgs (k + p.slots) 0 rest := by
  cases p with
  | test table column c =>
    have h : (Piece.test table column c).text = testText table column c ++ argText := by simp [Piece.text, testText]
    rw [h, append_assoc, clean_of_not_mem (not_mem_testText (by decide) (by decide) table column c), replaceArgs_arg,
      Piece.numbered, append_assoc]
    rfl
  | absent =>
    rw [Piece.text, append_assoc, append_assoc, part_absentText.clean, replaceArgs_arg, Piece.numbered,
      append_assoc, append_assoc, clean_of_not_mem (show '_' ∉ [')'] by decide)]
    rfl
  | space | lpar | rpar | and | or | not => exact clean_of_not_mem (by decide) k rest

lemma replaceArgs_clause (c : Clause) (rest : Text) :
    replaceArgs k 0 (clauseText c ++ rest) = numbered k c ++ replaceArgs (k + slots c) 0 rest := by
  induction c generalizing k with
  | nil => rfl
  | cons p c ih =>
    have h : clauseText (p :: c) = p.text ++ clauseText c := rfl
    rw [h, append_assoc, replaceArgs_piece, ih, numbered, slots_cons, append_assoc, Nat.add_assoc]

lemma Piece.starts_numbered (p : Piece) (k : ℕ) : Starts (p.numbered k) := by
  cases p <;> exact starts_cons (by decide)

lemma starts_numbered (k : ℕ) (c : Clause) : Starts (numbered k c) := by
  induction c generalizing k with
  | nil => exact starts_nil
  | cons p c ih => exact (p.starts_numbered k).append (ih _)

lemma Piece.placeholders_numbered (p : Piece) (k : ℕ) : placeholders (p.numbered k) = List.range' k p.slots := by
  cases p with
  | test table column c =>
    have hw := placeholders_of_not_mem (not_mem_testText (d := '$') (by decide) (by decide) table column c)
    rw [Piece.numbered, placeholders_append (starts_placeholder k), hw, placeholders_placeholder]
    rfl
  | absent =>
    rw [Piece.numbered, placeholders_append (starts_cons (by decide)), placeholders_append (starts_placeholder k),
      part_absentText.numbers, placeholders_placeholder]
    rfl
  | space | lpar | rpar | and | or | not => rfl

lemma placeholders_numbered (k : ℕ) (c : Clause) : placeholders (numbered k c) = List.range' k (slots c) := by
  induction c generalizing k with
  | nil => rfl
  | cons p c ih =>
    rw [numbered, placeholders_append (starts_numbered _ c), p.placeholders_numbered, ih, slots_cons,
      List.range'_append_1]

end

section

def Steady (c : Clause) : Prop := ∀ k, Neutral (numbered k c)

variable {c c' : Clause}

lemma steady_nil : Steady [] := fun _ _ => rfl

lemma Steady.of_eq (h : Steady c) (he : c = c') : Steady c' := he ▸ h

lemma Steady.append (h : Steady c) (h' : Steady c') : Steady (c ++ c') := by
  intro k
  rw [numbered_append]
  exact (h k).append (h' _)

lemma Steady.wrap (h : Steady c) : Steady ([.lpar] ++ c ++ [.rpar]) := by
  intro k
  have hn : numbered k ([.lpar] ++ c ++ [.rpar]) = '(' :: numbered k c ++ [')'] := by
    simp [numbered_append, numbered, Piece.numbered, Piece.text, Piece.slots]
  rw [hn]
  exact (h k).wrap

lemma neutral_testText (table : ℕ) (column : Column) (c : Comparison) : Neutral (testText table column c) := by
  rw [testText_eq, tableText]
  exact Neutral.append (fun d => neutral_formatNat table d) (tests_over column c).2.neutral

lemma steady_piece {p : Piece} (hl : p ≠ .lpar) (hr : p ≠ .rpar) : Steady [p] := by
  intro k
  rw [numbered, numbered, append_nil]
  cases p with
  | test table column c => exact (neutral_testText table column c).append (neutral_placeholder k)
  | absent =>
    intro d
    have hd := part_absentText.depth d
    rw [Nat.zero_add] at hd
    rw [Piece.numbered, append_assoc, depth_append, hd, Option.bind_some, depth_append, neutral_placeholder,
      Option.bind_some, Nat.add_comm]
    rfl
  | lpar => exact absurd rfl hl
  | rpar => exact absurd rfl hr
  | space | and | or | not => exact Matched.neutral rfl

lemma steady_pieces (h : ∀ p ∈ c, p ≠ .lpar ∧ p ≠ .rpar) : Steady c := by
  induction c with
  | nil => exact steady_nil
  | cons p c ih =>
    obtain ⟨hl, hr⟩ := h p (.head _)
    exact (steady_piece hl hr).append (ih fun q hq => h q (.tail _ hq))

lemma steady_binOp (op : Op) : Steady (binOp op) := by
  refine steady_pieces fun p hp => ?_
  cases op <;> simp_all [binOp]

lemma steady_intercalate {sep : Clause} {cs : List Clause} (hs : Steady sep) (h : ∀ c ∈ cs, Steady c) :
    Steady (sep.intercalate cs) := by
  induction cs with
  | nil => exact steady_nil
  | cons c cs ih =>
    cases cs with
    | nil => simpa using h c (.head _)
    | cons c' cs =>
      have ih' := ih fun c hc => h c (.tail _ hc)
      rw [intercalate_cons_cons]
      exact ((h c (.head _)).append hs).append ih'

end

section

def slotted (c : Clause) : Clause := c.filter fun p => p.slots = 1

variable {sep c c' : Clause} {cs : List Clause} {p : Piece}

lemma Piece.slots_le (p : Piece) : p.slots ≤ 1 := by cases p <;> simp [Piece.slots]

lemma slots_eq_length (c : Clause) : slots c = (slotted c).length := by
  induction c with
  | nil => rfl
  | cons p c ih =>
    rw [slots_cons, ih, slotted, slotted, filter_cons]
    have hle := p.slots_le
    split
    · next h =>
      rw [length_cons, decide_eq_true_eq.mp h, Nat.add_comm]
    · next h =>
      have h0 : p.slots = 0 := by
        simp only [decide_eq_true_eq] at h
        omega
      rw [h0, Nat.zero_add]

@[simp] lemma slotted_nil : slotted [] = [] := rfl

@[simp] lemma slotted_append : slotted (c ++ c') = slotted c ++ slotted c' := filter_append _ _

@[simp] lemma slotted_test {t : ℕ} {column : Column} {cmp : Comparison} :
    slotted (.test t column cmp :: c) = .test t column cmp :: slotted c := rfl

@[simp] lemma slotted_absent : slotted (.absent :: c) = .absent :: slotted c := rfl

@[simp] lemma slotted_space : slotted (.space :: c) = slotted c := rfl

@[simp] lemma slotted_lpar : slotted (.lpar :: c) = slotted c := rfl

@[simp] lemma slotted_rpar : slotted (.rpar :: c) = slotted c := rfl

@[simp] lemma slotted_and : slotted (.and :: c) = slotted c := rfl

@[simp] lemma slotted_or : slotted (.or :: c) = slotted c := rfl

@[simp] lemma slotted_not : slotted (.not :: c) = slotted c := rfl

@[simp] lemma slotted_binOp (op : Op) : slotted (binOp op) = [] := by cases op <;> rfl

lemma slotted_groupJoin (mod : Op) : slotted (groupJoin mod) = [] := by
  unfold groupJoin
  split <;> rfl

lemma slotted_intercalate (hs : slotted sep = []) : slotted (sep.intercalate cs) = cs.flatMap slotted := by
  induction cs with
  | nil => rfl
  | cons c cs ih =>
    cases cs with
    | nil => simp
    | cons c' cs =>
      rw [intercalate_cons_cons, slotted_append, slotted_append, hs, ih, append_nil]
      rfl

lemma slotted_joinClauses {l : List (Piece × Op)} (h : ∀ q ∈ l, slotted [q.1] = [q.1]) :
    slotted (joinClauses l) = l.map Prod.fst := by
  have hr {l : List (Piece × Op)} (h : ∀ q ∈ l, slotted [q.1] = [q.1]) :
      slotted (l.flatMap fun q => Piece.space :: groupJoin q.2 ++ [q.1]) = l.map Prod.fst := by
    induction l with
    | nil => rfl
    | cons q l ih =>
      rw [flatMap_cons, slotted_append, ih fun q hq => h q (.tail _ hq), slotted_append, h q (.head _),
        slotted_space, slotted_groupJoin]
      rfl
  cases l with
  | nil => rfl
  | cons q l =>
    have hq : slotted [q.1] = [q.1] := h q (.head _)
    have hj : joinClauses (q :: l) = q.1 :: l.flatMap fun q => Piece.space :: groupJoin q.2 ++ [q.1] := rfl
    rw [hj, ← singleton_append, slotted_append, hq, hr fun q hq => h q (.tail _ hq)]
    rfl

end

section

variable (lib : Library) (cvt : Bool)

lemma slotted_grouped (field : Text) (terms : List QueryTerm) (tNum : ℕ) (op : Op) :
    slotted (buildGroupedQuery lib cvt field terms tNum op).clause =
      .test tNum .path .pathMatch :: (terms.map fun v => .test tNum .value (matchOp v).1) ++
        terms.mapIdx fun i _ => .test (tNum + (i + 1)) .path .pathMatch := by
  have hv : slotted (joinClauses (terms.map fun v => (Piece.test tNum .value (matchOp v).1, v.mod))) =
      terms.map fun v => .test tNum .value (matchOp v).1 := by
    rw [slotted_joinClauses, map_map]
    · rfl
    · intro q hq
      obtain ⟨v, -, rfl⟩ := mem_map.mp hq
      rfl
  have hp : slotted (joinClauses (terms.mapIdx fun i v => (Piece.test (tNum + (i + 1)) .path .pathMatch, v.mod))) =
      terms.mapIdx fun i _ => .test (tNum + (i + 1)) .path .pathMatch := by
    rw [slotted_joinClauses]
    · simp [mapIdx_eq_zipIdx_map]
    · intro q hq
      obtain ⟨i, hi, rfl⟩ := mem_mapIdx.mp hq
      rfl
  simp [buildGroupedQuery, hv, hp]

lemma slotted_bounds (tNum : ℕ) (column : Column) {l : List (Text × Comparison × Comparison)}
    (f : Text × Comparison × Comparison → Comparison) :
    slotted ([Piece.and].intercalate (l.map fun b => [Piece.test tNum column (f b)])) =
      l.map fun b => .test tNum column (f b) := by
  rw [slotted_intercalate rfl]
  induction l with
  | nil => rfl
  | cons b l ih =>
    rw [map_cons, flatMap_cons, ih]
    rfl

def bothWild : Query → Bool
  | .range _ start stop _ _ => start = ['*'] && stop = ['*']
  | _ => false

def negatedTerm : Query → Bool
  | .basic field term _ => term.mod.negates && field ≠ [] && term.term ≠ ['*'] && term.term ≠ []
  | _ => false

def Asks (q : Query) (first last : ℕ) (p : Piece) : Prop :=
  (∃ t column c, p = .test t column c ∧ first ≤ t ∧ t ≤ last) ∨ p = .absent ∧ negatedTerm q = true

structure Made (q : Query) (tNum : ℕ) (b : Built) : Prop where
  steady : Steady b.clause
  slots_le : slots b.clause ≤ b.args.length
  slots_eq_iff : slots b.clause = b.args.length ↔ bothWild q = false
  slots_pos : 0 < slots b.clause
  tNum_le : tNum ≤ b.tNum
  asks : ∀ p ∈ slotted b.clause, Asks q tNum b.tNum p
  absent : negatedTerm q = true → .absent ∈ slotted b.clause

lemma asks_test {q : Query} (tNum : ℕ) (column : Column) (c : Comparison) : Asks q tNum tNum (.test tNum column c) :=
  .inl ⟨tNum, column, c, rfl, le_rfl, le_rfl⟩

lemma steady_test (t : ℕ) (column : Column) (c : Comparison) : Steady [.test t column c] :=
  steady_piece (by simp) (by simp)

lemma made_basic (field : Text) (term : QueryTerm) (complete : Bool) (tNum : ℕ) (op : Op) :
    Made (.basic field term complete) tNum (buildBasicQuery lib cvt field term tNum op) := by
  have ho (column : Column) (c : Comparison) : Steady (binOp op ++ [.lpar, .test tNum column c, .rpar]) :=
    (steady_binOp op).append (steady_test tNum column c).wrap
  have hm (cop : Comparison) :
      Steady ([.lpar] ++ ([.test tNum .path .pathMatch] ++ [.and] ++ [.test tNum .value cop]) ++ [.rpar]) :=
    Steady.wrap (((steady_test _ _ _).append (steady_piece (by simp) (by simp))).append (steady_test _ _ _))
  have hal : Steady ([.lpar] ++ [.test tNum .path .pathMatch] ++ [.rpar]) := (steady_test _ _ _).wrap
  unfold buildBasicQuery
  generalize matchOp term = m
  obtain ⟨cop, escaped⟩ := m
  dsimp only
  split_ifs with hs hf hn
  · refine ⟨ho _ _, ?_, ?_, by simp [slots_eq_length], le_rfl, ?_, ?_⟩
    · simp [slots_eq_length]
    · simp [slots_eq_length, bothWild]
    · simpa using asks_test tNum _ _
    · rcases hs with h | h <;> simp [negatedTerm, h]
  · refine ⟨ho _ _, ?_, ?_, by simp [slots_eq_length], le_rfl, ?_, ?_⟩
    · simp [slots_eq_length]
    · simp [slots_eq_length, bothWild]
    · simpa using asks_test tNum _ _
    · simp [negatedTerm, hf]
  · refine ⟨?_, ?_, ?_, by simp [slots_eq_length], le_rfl, ?_, by simp⟩
    · have ha := (((((hm cop).append (steady_pieces (c := [.and, .not]) (by simp))).append hal).wrap).append
        (steady_pieces (c := [.or, .absent]) (by simp))).wrap
      exact (steady_binOp op).append (by simpa using ha)
    · simp [slots_eq_length]
    · simp [slots_eq_length, bothWild]
    · have hq : negatedTerm (.basic field term complete) = true := by simp_all [negatedTerm]
      simpa using ⟨asks_test tNum _ _, asks_test tNum _ _, asks_test tNum _ _, .inr ⟨rfl, hq⟩⟩
  · refine ⟨?_, ?_, ?_, by simp [slots_eq_length], le_rfl, ?_, ?_⟩
    · have ha := (((hm cop).append (steady_pieces (c := [.or]) (by simp))).append hal).wrap
      exact (steady_binOp op).append (by simpa using ha)
    · simp [slots_eq_length]
    · simp [slots_eq_length, bothWild]
    · simpa using ⟨asks_test tNum _ _, asks_test tNum _ _, asks_test tNum _ _⟩
    · simp_all [negatedTerm]

lemma steady_joinClauses {l : List (Piece × Op)} (h : ∀ q ∈ l, q.1 ≠ .lpar ∧ q.1 ≠ .rpar) : Steady (joinClauses l) := by
  refine steady_pieces fun p hp => ?_
  have hj (mod : Op) : ∀ p ∈ groupJoin mod, p ≠ .lpar ∧ p ≠ .rpar := by
    unfold groupJoin
    split <;> simp
  cases l with
  | nil => cases hp
  | cons q l =>
    rcases mem_cons.mp hp with rfl | hp
    · exact h q (.head _)
    · obtain ⟨q', hq', hp⟩ := mem_flatMap.mp hp
      rcases mem_append.mp hp with hp | hp
      · rcases mem_cons.mp hp with rfl | hp
        · simp
        · exact hj _ p hp
      · obtain rfl := mem_singleton.mp hp
        exact h q' (.tail _ hq')

lemma made_grouped (field : Text) (terms : List QueryTerm) (complete : Bool) (tNum : ℕ) (op : Op) :
    Made (.grouped field terms complete) tNum (buildGroupedQuery lib cvt field terms tNum op) := by
  have hs : slots (buildGroupedQuery lib cvt field terms tNum op).clause =
      (buildGroupedQuery lib cvt field terms tNum op).args.length := by
    rw [slots_eq_length, slotted_grouped]
    simp [buildGroupedQuery]
  refine ⟨?_, hs.le, by simp [hs, bothWild], ?_, by simp [buildGroupedQuery], ?_, ?_⟩
  · have hv : Steady (joinClauses (terms.map fun v => (Piece.test tNum .value (matchOp v).1, v.mod))) :=
      steady_joinClauses (by simp)
    have hpt : Steady (joinClauses (terms.mapIdx fun i v =>
        (Piece.test (tNum + (i + 1)) .path .pathMatch, v.mod))) := by
      refine steady_joinClauses fun q hq => ?_
      obtain ⟨i, hi, rfl⟩ := mem_mapIdx.mp hq
      simp
    have hh : Steady [.test tNum .path .pathMatch, .and] := steady_pieces (by simp)
    have ha := (((hh.append hv.wrap).wrap.append (steady_pieces (c := [.or]) (by simp))).append
      hpt.wrap).wrap
    exact ((steady_binOp op).append ha).of_eq (by simp [buildGroupedQuery])
  · simp [slots_eq_length, slotted_grouped]
  · rw [slotted_grouped]
    intro p hp
    rcases mem_append.mp hp with hp | hp
    · rcases mem_cons.mp hp with rfl | hp
      · exact .inl ⟨_, _, _, rfl, le_rfl, Nat.le_add_right _ _⟩
      · obtain ⟨v, -, rfl⟩ := mem_map.mp hp
        exact .inl ⟨_, _, _, rfl, le_rfl, Nat.le_add_right _ _⟩
    · obtain ⟨i, hi, rfl⟩ := mem_mapIdx.mp hp
      exact .inl ⟨_, _, _, rfl, Nat.le_add_right _ _, Nat.add_le_add_left hi _⟩
  · simp [negatedTerm]

lemma steady_bounds (tNum : ℕ) (column : Column) (l : List (Text × Comparison × Comparison))
    (f : Text × Comparison × Comparison → Comparison) :
    Steady ([Piece.and].intercalate (l.map fun b => [Piece.test tNum column (f b)])) := by
  refine steady_intercalate (steady_piece (by simp) (by simp)) fun c hc => ?_
  obtain ⟨b, -, rfl⟩ := mem_map.mp hc
  exact steady_test _ _ _

lemma slotted_rangeClause (bounds : List (Text × Comparison × Comparison)) (tNum : ℕ) (op : Op) (negated : Bool) :
    slotted (rangeClause bounds tNum op negated) =
      .test tNum .path .pathMatch :: (bounds.map fun b => .test tNum .value b.2.1) ++
        if bounds = [] then [] else .test tNum .path .pathMatch :: bounds.map fun b => .test tNum .path b.2.2 := by
  have hn : slotted (if negated then [.space, .not] else []) = [] := by cases negated <;> rfl
  by_cases hb : bounds = []
  · simp [rangeClause, hb, hn]
  · simp [rangeClause, hb, hn, slotted_bounds]

lemma steady_rangeClause (bounds : List (Text × Comparison × Comparison)) (tNum : ℕ) (op : Op) (negated : Bool) :
    Steady (rangeClause bounds tNum op negated) := by
  have hn : Steady (if negated then [.space, .not] else []) := by
    cases negated
    · exact steady_nil
    · exact steady_pieces (by simp)
  have hm := steady_test tNum .path .pathMatch
  have hs := (steady_binOp op).append hn
  by_cases hb : bounds = []
  · exact (hs.append hm.wrap).of_eq (by simp [rangeClause, hb])
  · have hv := (steady_bounds tNum .value bounds fun b => b.2.1).wrap
    have hp := ((steady_pieces (c := [.test tNum .path .pathMatch, .and]) (by simp)).append
      (steady_bounds tNum .path bounds fun b => b.2.2)).wrap
    have ha := ((hm.append ((steady_pieces (c := [.and]) (by simp)).append hv)).append
      ((steady_pieces (c := [.or]) (by simp)).append hp)).wrap
    exact (hs.append ha).of_eq (by simp [rangeClause, hb])

lemma made_range (field start stop : Text) (inclusive negated : Bool) (tNum : ℕ) (op : Op) :
    Made (.range field start stop inclusive negated) tNum
      (buildRangeQuery lib cvt field start stop inclusive tNum op negated) := by
  have hw : bothWild (.range field start stop inclusive negated) = false ↔
      (if stop < start then rangeBounds stop start inclusive else rangeBounds start stop inclusive) ≠ [] := by
    unfold rangeBounds
    split_ifs <;> simp_all [bothWild]
  rw [buildRangeQuery]
  generalize (if stop < start then rangeBounds stop start inclusive else rangeBounds start stop inclusive) = bounds
    at hw
  refine ⟨steady_rangeClause bounds tNum op negated, ?_, ?_, ?_, le_rfl, ?_, by simp [negatedTerm]⟩
  · rw [slots_eq_length, slotted_rangeClause]
    split_ifs <;> simp
  · rw [hw, slots_eq_length, slotted_rangeClause]
    split_ifs with hb <;> simp [hb]
  · simp [slots_eq_length, slotted_rangeClause]
  · rw [slotted_rangeClause]
    intro p hp
    refine .inl ?_
    simp only [mem_append, mem_cons, mem_map] at hp
    rcases hp with (rfl | ⟨b, -, rfl⟩) | hp
    · exact ⟨_, _, _, rfl, le_rfl, le_rfl⟩
    · exact ⟨_, _, _, rfl, le_rfl, le_rfl⟩
    · split_ifs at hp
      · cases hp
      · rcases mem_cons.mp hp with rfl | hp
        · exact ⟨_, _, _, rfl, le_rfl, le_rfl⟩
        · obtain ⟨b, -, rfl⟩ := mem_map.mp hp
          exact ⟨_, _, _, rfl, le_rfl, le_rfl⟩

lemma Call.made (c : Call) : Made c.query c.tNum (c.built lib cvt) := by
  obtain ⟨q, tNum, op⟩ := c
  cases q with
  | basic field term complete => exact made_basic lib cvt field term complete tNum op
  | grouped field terms complete => exact made_grouped lib cvt field terms complete tNum op
  | range field start stop inclusive negated =>
    exact made_range lib cvt field start stop inclusive negated tNum op

end

lemma part_builtin {idx : Text} (h : builtinIndex idx = true) : Part idx [] 0 0 := by
  simp only [builtinIndex, map_cons, map_nil, decide_eq_true_eq, mem_cons, not_mem_nil,
    or_false] at h
  rcases h with rfl | rfl | rfl | rfl <;> exact part_quiet rfl

lemma part_items (idx : Text) : ∃ ns, Part (itemsStatement idx) ns 0 0 ∧ ∀ n ∈ ns, 1 ≤ n ∧ n ≤ 2 := by
  unfold itemsStatement
  split
  · next hb =>
    exact ⟨[1], (part_quiet rfl).append ((part_builtin hb).append (part_literal [1] 0 0 rfl)), by simp⟩
  · exact ⟨[1, 2], (part_quiet rfl).append ((part_quiet rfl).append
      ((part_literal [1] 0 0 rfl).append (part_literal [2] 0 0 rfl))), by simp⟩

lemma part_tableText (table : ℕ) : Part (tableText table) [] 0 0 where
  clean := clean_of_not_mem (not_mem_tableText (by decide) (by decide) table)
  starts := starts_cons (by decide)
  numbers := placeholders_of_not_mem (not_mem_tableText (by decide) (by decide) table)
  depth := fun d => neutral_formatNat table (0 + d)

lemma part_source (s : Source) : Part s.text [] 0 0 := by
  cases s with
  | found => exact part_quiet rfl
  | items => exact part_quiet rfl
  | join table =>
    have ht := part_tableText table
    exact (part_quiet rfl).append (ht.append ((part_quiet rfl).append (ht.append (part_quiet rfl))))

lemma part_join {sep : Text} {ws : List Text} (hs : Part sep [] 0 0) (h : ∀ w ∈ ws, Part w [] 0 0) :
    Part (Text.join sep ws) [] 0 0 := by
  unfold Text.join
  induction ws with
  | nil => exact part_nil
  | cons w ws ih =>
    cases ws with
    | nil => simpa using h w (.head _)
    | cons w' ws =>
      have ih' := ih fun w hw => h w (.tail _ hw)
      rw [intercalate_cons_cons]
      exact ((h w (.head _)).append hs).append ih'

lemma part_selectHead (tNum : ℕ) : Part (selectHead tNum) [] 0 0 := by
  unfold selectHead
  split
  · exact (part_quiet rfl).append ((part_quiet rfl).append (part_source _))
  · refine (part_quiet rfl).append ((part_source _).append (part_join (part_quiet rfl) fun w hw => ?_))
    obtain ⟨s, -, rfl⟩ := mem_map.mp hw
    exact part_source s

lemma part_placeholder (n : ℕ) : Part (placeholder n) [n] 0 0 where
  clean := by
    refine clean_of_not_mem ?_
    rw [placeholder, mem_cons, not_or]
    exact ⟨by decide, Text.not_mem_formatNat (by decide) n⟩
  starts := starts_placeholder n
  numbers := placeholders_placeholder n
  depth := fun d => neutral_placeholder n (0 + d)

def numberList (ns : List ℕ) : Text := Text.join ", " (ns.map placeholder)

lemma part_numberList (ns : List ℕ) : Part (numberList ns) ns 0 0 := by
  induction ns with
  | nil => exact part_nil
  | cons n ns ih =>
    cases ns with
    | nil =>
      have ho : numberList [n] = placeholder n := by simp [numberList, Text.join]
      rw [ho]
      exact part_placeholder n
    | cons m ns =>
      have hc : numberList (n :: m :: ns) = placeholder n ++ (", " ++ numberList (m :: ns)) := by
        simp [numberList, Text.join, intercalate_cons_cons]
      rw [hc]
      exact (part_placeholder n).append ((part_quiet rfl).append ih)

lemma part_withHead : Part withHead [1, 2] 0 1 :=
  (part_literal [] 0 1 rfl).append ((part_literal [1] 1 1 rfl).append ((part_literal [] 1 2 rfl).append
    ((part_literal [2] 2 1 rfl).append (part_literal [] 1 1 rfl))))

def statementHead (idx : Text) (paths tNum : ℕ) : Text :=
  withHead ++ (numberList (List.range' 3 paths) ++ (" ]::goiardi.lquery[]), items AS (" ++
    (itemsStatement idx ++ (")" ++ (" " ++ (selectHead tNum ++ " WHERE "))))))

lemma statement_eq (idx : Text) (paths tNum : ℕ) (c : Clause) :
    withStatement idx paths ++ ' ' :: selectStatement tNum c = statementHead idx paths tNum ++ clauseText c := by
  have hp : (List.range paths).map (fun i => placeholder (3 + i)) = (List.range' 3 paths).map placeholder := by
    rw [List.range'_eq_map_range, map_map]
    rfl
  have hs : ∀ t : Text, ' ' :: t = " " ++ t := fun _ => rfl
  rw [hs, withStatement, selectStatement, statementHead, numberList, hp]
  simp only [append_assoc]

lemma part_statementHead (idx : Text) (paths tNum : ℕ) :
    ∃ ns, Part (statementHead idx paths tNum) ns 0 0 ∧ ∀ n, n ∈ ns ↔ 1 ≤ n ∧ n ≤ 2 + paths := by
  obtain ⟨items, hi, hle⟩ := part_items idx
  have hm : Part " ]::goiardi.lquery[]), items AS (" [] 1 1 := part_literal [] 1 1 rfl
  have hc : Part ")" [] 1 0 := part_literal [] 1 0 rfl
  have ht : Part (" " ++ (selectHead tNum ++ " WHERE ")) [] 0 0 :=
    (part_quiet rfl).append ((part_selectHead tNum).append (part_quiet rfl))
  refine ⟨_, part_withHead.append (((part_numberList _).lift 1).append (hm.append ((hi.lift 1).append
    (hc.append ht)))), fun n => ?_⟩
  simp only [mem_append, mem_cons, not_mem_nil, or_false, false_or, mem_range'_1]
  constructor
  · rintro ((rfl | rfl) | h | h)
    · omega
    · omega
    · omega
    · have := hle n h
      omega
  · intro h
    by_cases hn : n ≤ 2
    · exact .inl (by omega)
    · exact .inr (.inl (by omega))

lemma replaceArgs_statement (idx : Text) (paths tNum : ℕ) (c : Clause) (k : ℕ) :
    replaceArgs k 0 (withStatement idx paths ++ ' ' :: selectStatement tNum c) =
      statementHead idx paths tNum ++ numbered k c := by
  obtain ⟨ns, hp, -⟩ := part_statementHead idx paths tNum
  have hc : replaceArgs k 0 (clauseText c) = numbered k c := by
    simpa [replaceArgs] using replaceArgs_clause (k := k) c []
  rw [statement_eq, hp.clean, hc]

end Goiardi.Search.Postgres
