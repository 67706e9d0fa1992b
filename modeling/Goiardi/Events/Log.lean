import Goiardi.Objects.Kinds
import Mathlib.Algebra.Order.Ring.Star
import Mathlib.Data.Int.Star

/-! The event log of the in-memory store: how events are numbered, and the window of them that a listing shows. -/

namespace Goiardi.Events

open List Option Objects

open Uploads (Fault refuse)

section

variable {α : Type}

def getNextID (lis : AList fun _ : ℤ => α) : ℤ := lis.keys.max?.elim 1 (· + 1)

def setLogInfo (arr : AList fun _ : ℤ => α) (obj : α) : AList fun _ : ℤ => α := arr.insert (getNextID arr) obj

-- the event with the given number goes too
def purgeLogInfoBefore (arr : AList fun _ : ℤ => α) (id : ℤ) : ℕ × AList fun _ : ℤ => α :=
  (arr.entries.countP fun e => !(id < e.1), (arr.entries.filter fun e => id < e.1).toAList)

inductive LogCall (α : Type)
  | set (obj : α)
  | delete (id : ℤ)
  | purge (id : ℤ)

/-- The log with the numbers that were given out, in their order. -/
structure Logged (α : Type) where
  arr : AList fun _ : ℤ => α
  assigned : List ℤ

def Logged.call (s : Logged α) : LogCall α → Logged α
  | .set obj => ⟨setLogInfo s.arr obj, s.assigned ++ [getNextID s.arr]⟩
  | .delete id => ⟨s.arr.erase id, s.assigned⟩
  | .purge id => ⟨(purgeLogInfoBefore s.arr id).2, s.assigned⟩

def run (calls : List (LogCall α)) : Logged α := calls.foldl Logged.call ⟨∅, []⟩

/-- Whenever an event is logged, the one logged before it is still there. -/
def LastKept : Logged α → List (LogCall α) → Prop
  | _, [] => True
  | s, c :: cs => (∀ obj, c = .set obj → ∀ i ∈ s.assigned.getLast?, i ∈ s.arr) ∧ LastKept (s.call c) cs

structure Logged.Increasing (s : Logged α) : Prop where
  sorted : s.assigned.Pairwise (· < ·)
  positive : ∀ i ∈ s.assigned, 1 ≤ i
  known : ∀ i ∈ s.arr, i ∈ s.assigned

variable {s : Logged α} {i j : ℤ}

lemma of_mem_toAList {l : List (Σ _ : ℤ, α)} (h : i ∈ l.toAList) : i ∈ l.keys := by
  induction l with
  | nil => exact h
  | cons e l ih =>
    rw [AList.toAList_cons, AList.mem_insert] at h
    rcases h with rfl | h
    · exact .head _
    · exact .tail _ (ih h)

lemma lt_getNextID {arr : AList fun _ : ℤ => α} (h : i ∈ arr) : i < getNextID arr := by
  have hk : i ∈ arr.keys := h
  rw [getNextID]
  cases hm : arr.keys.max? with
  | none => exact absurd (List.max?_eq_none_iff.mp hm) (ne_nil_of_mem hk)
  | some m => exact Int.lt_add_one_of_le ((List.max?_eq_some_iff.mp hm).2 i hk)

lemma Logged.Increasing.le_last (h : s.Increasing) (hl : i ∈ s.assigned.getLast?) (hj : j ∈ s.assigned) : j ≤ i := by
  obtain ⟨init, hs⟩ := List.getLast?_eq_some_iff.mp hl
  have hp := h.sorted
  rw [hs] at hp hj
  rcases mem_append.mp hj with hj | hj
  · exact ((pairwise_append.mp hp).2.2 j hj i (.head _)).le
  · exact (mem_singleton.mp hj).le

lemma Logged.Increasing.lt_next_iff (h : s.Increasing) :
    (∀ j ∈ s.assigned, j < getNextID s.arr) ↔ ∀ i ∈ s.assigned.getLast?, i ∈ s.arr := by
  constructor
  · intro hn i hi
    have hlt := hn i (mem_of_getLast? hi)
    have hp := h.positive i (mem_of_getLast? hi)
    rw [getNextID] at hlt
    cases hm : s.arr.keys.max? with
    | none =>
      rw [hm, elim_none] at hlt
      omega
    | some m =>
      have hk : m ∈ s.arr := (List.max?_eq_some_iff.mp hm).1
      have hle := h.le_last hi (h.known m hk)
      rw [hm, elim_some] at hlt
      rwa [show i = m by omega]
  · intro hl j hj
    obtain ⟨i, hi⟩ := isSome_iff_exists.mp (getLast?_isSome.mpr (ne_nil_of_mem hj))
    exact (h.le_last hi hj).trans_lt (lt_getNextID (hl i hi))

lemma one_le_getNextID (h : s.Increasing) : 1 ≤ getNextID s.arr := by
  rw [getNextID]
  cases hm : s.arr.keys.max? with
  | none => exact le_rfl
  | some m =>
    have hp := h.positive m (h.known m (List.max?_eq_some_iff.mp hm).1)
    rw [elim_some]
    omega

lemma Logged.Increasing.call (h : s.Increasing) (c : LogCall α)
    (hc : ∀ obj, c = .set obj → ∀ i ∈ s.assigned.getLast?, i ∈ s.arr) : (s.call c).Increasing := by
  cases c with
  | set obj =>
    refine ⟨pairwise_append.mpr ⟨h.sorted, pairwise_singleton _ _, ?_⟩, ?_, fun i hi => ?_⟩
    · simpa [Logged.call] using h.lt_next_iff.mpr (hc obj rfl)
    · simp only [Logged.call, mem_append, mem_singleton]
      rintro i (hi | rfl)
      · exact h.positive i hi
      · exact one_le_getNextID h
    · rcases (AList.mem_insert _).mp hi with rfl | hi
      · exact mem_append_right _ (.head _)
      · exact mem_append_left _ (h.known i hi)
  | delete id => exact ⟨h.sorted, h.positive, fun i hi => h.known i (AList.mem_erase.mp hi).2⟩
  | purge id =>
    refine ⟨h.sorted, h.positive, fun i hi => h.known i ?_⟩
    exact (filter_sublist.map _).subset (of_mem_toAList hi)

lemma assigned_run (cs : List (LogCall α)) (s : Logged α) : s.assigned <+: (cs.foldl Logged.call s).assigned := by
  induction cs generalizing s with
  | nil => exact prefix_rfl
  | cons c cs ih =>
    refine List.IsPrefix.trans ?_ (ih (s.call c))
    cases c with
    | set obj => exact prefix_append _ _
    | delete id | purge id => exact prefix_rfl

lemma Logged.Increasing.run_iff (h : s.Increasing) (cs : List (LogCall α)) :
    (cs.foldl Logged.call s).assigned.Pairwise (· < ·) ↔ LastKept s cs := by
  induction cs generalizing s with
  | nil => exact iff_of_true h.sorted trivial
  | cons c cs ih =>
    rw [foldl_cons, LastKept]
    by_cases hc : ∀ obj, c = .set obj → ∀ i ∈ s.assigned.getLast?, i ∈ s.arr
    · rw [ih (h.call c hc), and_iff_right hc]
    · refine iff_of_false (fun hp => hc fun obj he => ?_) fun hk => hc hk.1
      subst he
      refine h.lt_next_iff.mp fun j hj => ?_
      exact (pairwise_append.mp (hp.sublist (assigned_run cs (s.call (.set obj))).sublist)).2.2 j hj _ (.head _)

/-- Every event gets a number above all numbers given out before exactly if the newest event is never deleted or purged
before the next one. -/
theorem assigned_increasing_iff (calls : List (LogCall α)) :
    (run calls).assigned.Pairwise (· < ·) ↔ LastKept ⟨∅, []⟩ calls :=
  Logged.Increasing.run_iff ⟨.nil, by simp, by simp⟩ calls

theorem assigned_again : (run [.set 'a', .set 'b', .delete 2, .set 'c']).assigned = [1, 2, 2] ∧
      (run [.set 'a', .purge 1, .set 'b']).assigned = [1, 1] := by
  decide +kernel

end

section

abbrev SearchParams := AList fun _ : Text => Text

def param (params : SearchParams) (k : Text) : Text := (params.lookup k).getD []

/-- The outside library, and the time of the call. -/
structure Env where
  title : Text → Text
  unix : ℤ → ℤ
  now : ℤ

structure Limits where
  offset : ℤ
  limit : Option ℤ
  offset_fits : 0 ≤ offset ∧ offset ≤ Text.maxInt64
  limit_fits : ∀ l ∈ limit, 0 ≤ l ∧ l ≤ Text.maxInt64

variable (env : Env) (params : SearchParams) (arr : AList fun _ : ℤ => LogInfo)

def unixParam (k : Text) (default : ℤ) : Except Fault ℤ :=
  match params.lookup k with
  | none => .ok default
  | some t =>
    match Text.parseInt t with
    | (n, true) => .ok (env.unix n)
    | (n, false) => .error (refuse ("strconv.ParseInt: parsing \"".toList ++ t ++
        (if n = 0 then "\": invalid syntax".toList else "\": value out of range".toList)))

def timeRange : Except Fault (ℤ × ℤ) := do
  let start ← unixParam env params "from" (env.unix 0)
  let stop ← unixParam env params "until" env.now
  return (start, stop)

def expandObjectType : SearchParams :=
  match params.lookup "object_type".toList with
  | none => params
  | some ot =>
    if ot.any fun c => c = '*' || c = '.' then params
    else params.insert "object_type" <|
      if ot = "environment" then "*environment.ChefEnvironment"
      else if ot = "cookbook_version" then "*cookbook.CookbookVersion"
      else '*' :: ot ++ '.' :: env.title ot

def doer : Text := param params "doer"

def agrees (k value : Text) : Bool := param params k = [] || param params k = value

def checkTimeRange (range : ℤ × ℤ) (le : LogInfo) : Bool := range.1 < le.time && le.time < range.2

/-- All of the loop's test but the last part, which asks the actor for its name. -/
def passes (range : ℤ × ℤ) (item : LogInfo) : Bool :=
  checkTimeRange range item && agrees params "action" item.action &&
    agrees params "object_type" item.objectType && agrees params "object_name" item.objectName

def takes (range : ℤ × ℤ) (item : LogInfo) : Except Fault Bool :=
  if passes params range item && doer params ≠ [] then
    match item.actor with
    | none => .error (.panic .nilPointer)
    | some a => .ok (doer params = a.name)
  else .ok (passes params range item)

def collect (range : ℤ × ℤ) : List ℤ → Except Fault (List LogInfo)
  | [] => .ok []
  | i :: keys =>
    match arr.lookup i with
    | none => collect range keys
    | some item => do
      let taken ← takes params range item
      let items ← collect range keys
      return if taken then { item with id := i } :: items else items

def slice {α : Type} (l : List α) (start stop : ℤ) : Except Fault (List α) :=
  if 0 ≤ start ∧ start ≤ stop ∧ stop ≤ l.length then .ok ((l.take stop.toNat).drop start.toNat)
  else .error (.panic .indexOutOfRange)

/-- The end of the slice: `offset + limit` is a sum of machine integers. -/
def Limits.stop (lim : Limits) (len n : ℕ) : ℤ :=
  min (lim.limit.elim (len : ℤ) fun l => min ((lim.offset + l).bmod (2 ^ 64)) len) n

def getLogInfos (lim : Limits) : Except Fault (List (Option LogInfo)) := do
  let range ← timeRange env params
  let found ← collect (expandObjectType env params) arr range (arr.keys.insertionSort (· ≥ ·))
  let lis := found.map some ++ List.replicate (arr.keys.length - found.length) none
  if lis.length = 0 then .ok lis else slice lis lim.offset (lim.stop lis.length found.length)

def Matches (range : ℤ × ℤ) (item : LogInfo) : Bool :=
  passes params range item &&
    (doer params = [] || item.actor.map Actors.Actor.name = some (doer params))

/-- The events a listing asks for, the newest first. -/
def matching (range : ℤ × ℤ) : List LogInfo :=
  (arr.keys.insertionSort (· ≥ ·)).filterMap fun i =>
    ((arr.lookup i).filter (Matches params range)).map fun item => { item with id := i }

def Windowed (lim : Limits) : Prop :=
  getLogInfos env params arr lim = (timeRange env params).map fun range =>
    let rest := (matching (expandObjectType env params) arr range).drop lim.offset.toNat
    ((lim.limit.elim rest fun l => rest.take l.toNat).map some)

def Named (range : ℤ × ℤ) : Prop :=
  doer params ≠ [] → ∀ i item, arr.lookup i = some item → passes params range item = true →
    item.actor.isSome = true

def InReach (lim : Limits) : Prop :=
  ∀ range, timeRange env params = .ok range → arr.keys ≠ [] →
    Named (expandObjectType env params) arr range ∧
      lim.offset ≤ (matching (expandObjectType env params) arr range).length ∧
      ∀ l ∈ lim.limit, lim.offset + l ≤ Text.maxInt64

variable {env params arr} {range : ℤ × ℤ} {lim : Limits} {item : LogInfo}

lemma takes_eq (h : passes params range item = true → doer params ≠ [] → item.actor.isSome = true) :
    takes params range item = .ok (Matches params range item) := by
  unfold takes Matches
  by_cases hp : passes params range item = true
  · by_cases hd : doer params = []
    · simp [hp, hd]
    · obtain ⟨a, ha⟩ := isSome_iff_exists.mp (h hp hd)
      simp [hp, hd, ha, eq_comm]
  · simp [hp]

lemma collect_eq (h : Named params arr range) (keys : List ℤ) : collect params arr range keys =
    .ok (keys.filterMap fun i =>
      ((arr.lookup i).filter (Matches params range)).map fun item => { item with id := i }) := by
  induction keys with
  | nil => rfl
  | cons i keys ih =>
    rw [collect, filterMap_cons]
    cases hi : arr.lookup i with
    | none => exact ih
    | some item =>
      simp only [takes_eq fun hp hd => h hd i item hi hp, ih, ok_bind]
      cases hm : Matches params range item <;> simp [Option.filter, hm] <;> rfl

lemma named_of_collect {keys : List ℤ} {items : List LogInfo} (h : collect params arr range keys = .ok items)
    (hk : ∀ i item, arr.lookup i = some item → i ∈ keys) : Named params arr range := by
  intro hd i item hi hp
  have hm := hk i item hi
  clear hk
  induction keys generalizing items with
  | nil => cases hm
  | cons j keys ih =>
    rw [collect] at h
    rcases mem_cons.mp hm with rfl | hm
    · rw [hi] at h
      obtain ⟨taken, ht, -⟩ := bind_eq_ok h
      rw [takes, hp, Bool.true_and, if_pos (decide_eq_true hd)] at ht
      cases ha : item.actor with
      | none =>
        rw [ha] at ht
        cases ht
      | some a => rfl
    · cases hj : arr.lookup j with
      | none =>
        rw [hj] at h
        exact ih h hm
      | some other =>
        rw [hj] at h
        obtain ⟨_, -, h⟩ := bind_eq_ok h
        obtain ⟨_, h, -⟩ := bind_eq_ok h
        exact ih h hm

lemma Limits.offset_le_stop_iff (lim : Limits) {len n : ℕ} (hn : n ≤ len) :
    lim.offset ≤ lim.stop len n ↔ lim.offset ≤ n ∧ ∀ l ∈ lim.limit, lim.offset + l ≤ Text.maxInt64 := by
  obtain ⟨offset, limit, ho, hl⟩ := lim
  cases limit with
  | none => simp [stop]; omega
  | some l =>
    have hl := hl l rfl
    simp only [stop, elim_some, Option.mem_def, some.injEq, forall_eq', Text.maxInt64] at ho hl ⊢
    by_cases hf : offset + l ≤ 2 ^ 63 - 1
    · rw [Int.bmod_eq_of_le (by omega) (by omega)]
      omega
    · have hb : (offset + l).bmod (2 ^ 64) = offset + l - 2 ^ 64 := by
        rw [← Int.sub_bmod_right]
        exact Int.bmod_eq_of_le (by omega) (by omega)
      rw [hb]
      omega

lemma take_drop_stop {α : Type} (lim : Limits) (l : List α) (len : ℕ) (hn : l.length ≤ len)
    (hf : ∀ k ∈ lim.limit, lim.offset + k ≤ Text.maxInt64) :
    (l.take (lim.stop len l.length).toNat).drop lim.offset.toNat =
      lim.limit.elim (l.drop lim.offset.toNat) fun k => (l.drop lim.offset.toNat).take k.toNat := by
  obtain ⟨offset, limit, ho, hl⟩ := lim
  cases limit with
  | none => simp [Limits.stop, hn]
  | some k =>
    have hk := hl k rfl
    have hf := hf k rfl
    simp only [Limits.stop, elim_some, Text.maxInt64] at ho hk hf ⊢
    rw [Int.bmod_eq_of_le (by omega) (by omega),
      show (min (min (offset + k) (len : ℤ)) (l.length : ℤ)).toNat = min (offset.toNat + k.toNat) l.length by omega,
      ← List.take_take, List.take_length, List.drop_take, Nat.add_sub_cancel_left]

theorem getLogInfos_windowed_iff (env : Env) (params : SearchParams) (arr : AList fun _ : ℤ => LogInfo)
    (lim : Limits) : Windowed env params arr lim ↔ InReach env params arr lim := by
  unfold Windowed InReach getLogInfos
  cases hr : timeRange env params with
  | error e => exact iff_of_true rfl fun _ h => by cases h
  | ok range =>
    simp only [ok_bind, Except.map, Except.ok.injEq, forall_eq']
    set sp := expandObjectType env params
    set found := matching sp arr range with hf
    have hle : found.length ≤ arr.keys.length := by
      rw [← (perm_insertionSort (· ≥ ·) arr.keys).length_eq]
      exact length_filterMap_le _ _
    by_cases hn : Named sp arr range
    · have hc : collect sp arr range (arr.keys.insertionSort (· ≥ ·)) = .ok found := collect_eq hn _
      have hl : (found.map some ++ List.replicate (arr.keys.length - found.length) none).length = arr.keys.length := by
        simp
        omega
      rw [hc, ok_bind, hl]
      by_cases hk : arr.keys = []
      · have hz : found = [] := length_eq_zero_iff.mp (by simpa [hk] using hle)
        rw [if_pos (by simp [hk]), hz]
        cases lim.limit <;> simp [hk]
      · rw [if_neg (by simpa using hk), slice, hl]
        have hst := lim.offset_le_stop_iff hle
        have hs : lim.stop arr.keys.length found.length ≤ _ := min_le_right _ _
        by_cases ho : lim.offset ≤ lim.stop arr.keys.length found.length
        · have hw := take_drop_stop lim found arr.keys.length hle (hst.mp ho).2
          rw [if_pos ⟨lim.offset_fits.1, ho, by omega⟩, take_append_of_le_length (by simp; omega), ← map_take, ← map_drop,
            hw]
          refine iff_of_true ?_ fun _ => ⟨hn, hst.mp ho⟩
          cases lim.limit <;> rfl
        · rw [if_neg fun h => ho h.2.1]
          exact iff_of_false (fun h => by cases h) fun h => ho (hst.mpr (h hk).2)
    · have hm (i : ℤ) (item : LogInfo) (hi : arr.lookup i = some item) : i ∈ arr.keys :=
        AList.mem_keys.mp (AList.lookup_isSome.mp (hi ▸ rfl))
      refine iff_of_false (fun h => hn ?_) fun h => hn fun hd i item hi => (h (ne_nil_of_mem (hm i item hi))).1 hd i item hi
      obtain ⟨items, hc, -⟩ := bind_eq_ok h
      exact named_of_collect hc fun i item hi => (mem_insertionSort _).mpr (hm i item hi)

def oneEvent : AList fun _ : ℤ => LogInfo :=
  AList.singleton 1 ⟨none, [], "user", 1, "create", "*role.Role", "web", [], 1⟩

theorem getLogInfos_panics : getLogInfos ⟨id, id, 10⟩ ∅ oneEvent ⟨2, none, by decide, by simp⟩ =
      .error (.panic .indexOutOfRange) ∧
    getLogInfos ⟨id, id, 10⟩ ∅ oneEvent ⟨1, some Text.maxInt64, by decide, by simp [Text.maxInt64]⟩ =
      .error (.panic .indexOutOfRange) := by
  decide +kernel

end

end Goiardi.Events
