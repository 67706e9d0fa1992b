import Goiardi.Base.Interleaving
import Goiardi.Reports.Retention

/-! A purge of old node statuses while nodes report new ones. The purge reads the statuses of a node in one step and
puts back those that it keeps in a later one. -/

namespace Goiardi.Nodes

open List StatusStore

open Retention (NodeStatus)

inductive PurgeTask (α : Type)
  | update (name : Text) (a : α)
  | purge (todo : List (Text × ℤ))
  | replacing (name : Text) (kept : List α) (todo : List (Text × ℤ))
  | finished

namespace PurgeTask

variable {α : Type}

section

variable (enc : α → Option Text) {time : α → ℤ} (sorting : KeySort time)

def afterRead (name : Text) (cutoff : ℤ) (todo : List (Text × ℤ)) (statuses : List α) : PurgeTask α :=
  match sorting.sort statuses with
  | [] => .purge todo
  | first :: rest =>
    if cutoff < time first then .purge todo
    else .replacing name (StatusStore.keptAfter time cutoff (first :: rest)) todo

def next (s : StatusStore α) : PurgeTask α → StatusStore α × PurgeTask α
  | update name a => ((s.setNodeStatus enc name a).2, .finished)
  | purge [] => (s, .finished)
  | purge ((name, cutoff) :: todo) =>
    match s.allNodeStatuses name with
    | .error _ => (s, .finished)
    | .ok statuses => (s, afterRead sorting name cutoff todo statuses)
  | replacing name kept todo =>
    match s.replaceNodeStatuses enc name kept with
    | (.error _, s) => (s, .finished)
    | (.ok (), s) => (s, .purge todo)
  | finished => (s, .finished)

end

def start (s : StatusStore α) (nodes : List (Text × ℤ)) (updates : List (Text × α)) :
    Pool (StatusStore α) (PurgeTask α) :=
  ⟨s, .purge nodes :: updates.map fun u => .update u.1 u.2⟩

def isFinished : PurgeTask α → Bool
  | finished => true
  | _ => false

def purging : PurgeTask α → Bool
  | purge _ => true
  | replacing _ _ _ => true
  | _ => false

variable (enc : α → Option Text) (time : α → ℤ) (nodes : List (Text × ℤ))

def fresh (name : Text) (a : α) : Bool := nodes.all fun x => x.1 ≠ name || x.2 < time a

def toSet (name : Text) : PurgeTask α → Option α
  | update name' a => if name' = name ∧ enc a = none then some a else none
  | _ => none

def clashes (t : PurgeTask α) : PurgeTask α → Bool
  | replacing name _ _ => (toSet enc name t).any (fresh time nodes name)
  | _ => false

def Apart (_ : StatusStore α) (t u : PurgeTask α) : Prop := t.clashes enc time nodes u = false

instance (s : StatusStore α) (t u : PurgeTask α) : Decidable (Apart enc time nodes s t u) :=
  inferInstanceAs (Decidable (t.clashes enc time nodes u = false))

def accepted (updates : List (Text × α)) (name : Text) : List α :=
  updates.filterMap fun u => toSet enc name (.update u.1 u.2)

def total (p : Pool (StatusStore α) (PurgeTask α)) (name : Text) : List α :=
  (p.shared.statuses name ++ p.threads.filterMap (toSet enc name)).filter (fresh time nodes name)

def Rely (s : StatusStore α) : PurgeTask α → Prop
  | purge todo => todo ⊆ nodes
  | replacing name kept todo => todo ⊆ nodes ∧ s.objs.isSome = true ∧ (∀ a ∈ kept, enc a = none) ∧
      (kept.filter (fresh time nodes name)).Perm ((s.statuses name).filter (fresh time nodes name))
  | _ => True

def OnePurge (t u : PurgeTask α) : Prop := ¬ (t.purging = true ∧ u.purging = true)

variable {enc time nodes} (sorting : KeySort time) {s s' : StatusStore α} {t t' u : PurgeTask α}

lemma filter_fresh_kept {name : Text} {cutoff : ℤ} (hm : (name, cutoff) ∈ nodes) (l : List α) :
    ((keptAfter time cutoff (sorting.sort l)).filter (fresh time nodes name)).Perm
      (l.filter (fresh time nodes name)) := by
  refine ((keptAfter_perm sorting cutoff l).filter _).trans ?_
  rw [filter_filter]
  refine List.Perm.of_eq (filter_congr fun a _ => ?_)
  by_cases hf : fresh time nodes name a = true
  · have hlt : cutoff < time a := by simpa using all_eq_true.mp hf _ hm
    simp [hlt]
  · simp [Bool.not_eq_true _ ▸ hf]

lemma afterRead_rely (hs : s.Consistent enc) (hm : s.objs.isSome = true) {name : Text} {cutoff : ℤ}
    {todo : List (Text × ℤ)} (hsb : (name, cutoff) :: todo ⊆ nodes) :
    Rely enc time nodes s (afterRead sorting name cutoff todo (s.statuses name)) := by
  have ht : todo ⊆ nodes := fun x hx => hsb (.tail _ hx)
  unfold afterRead
  cases hsr : sorting.sort (s.statuses name) with
  | nil => exact ht
  | cons first rest =>
    simp only
    split
    · exact ht
    · have hp := filter_fresh_kept sorting (hsb (.head _)) (s.statuses name)
      have hk := keptAfter_perm sorting cutoff (s.statuses name)
      rw [hsr] at hp hk
      exact ⟨ht, hm, fun a ha => hs.encodable_of_mem (mem_of_mem_filter (hk.mem_iff.mp ha)), hp⟩

section

structure StepSpec (enc : α → Option Text) (time : α → ℤ) (nodes : List (Text × ℤ)) (s s' : StatusStore α)
    (t t' : PurgeTask α) : Prop where
  consistent : s'.Consistent enc
  rely : Rely enc time nodes s' t'
  purging : t'.purging = true → t.purging = true
  made : s.objs.isSome = true → s'.objs.isSome = true
  total : ∀ n, ((s'.statuses n ++ (toSet enc n t').toList).filter (fresh time nodes n)).Perm
    ((s.statuses n ++ (toSet enc n t).toList).filter (fresh time nodes n))
  others : t.purging = false → ∀ n, (toSet enc n t).any (fresh time nodes n) = false →
    ((s'.statuses n).filter (fresh time nodes n)).Perm ((s.statuses n).filter (fresh time nodes n))

lemma StepSpec.idle (hs : s.Consistent enc) (ht' : Rely enc time nodes s t')
    (hp : t'.purging = true → t.purging = true) (hst : ∀ n, toSet enc n t' = toSet enc n t) :
    StepSpec enc time nodes s s t t' :=
  ⟨hs, ht', hp, id, fun n => by rw [hst n], fun _ _ _ => .rfl⟩

lemma update_spec (hs : s.Consistent enc) (name : Text) (a : α) :
    StepSpec enc time nodes s (s.setNodeStatus enc name a).2 (update name a) finished := by
  unfold setNodeStatus
  cases ha : enc a with
  | some e =>
    refine StepSpec.idle hs trivial (fun h => nomatch h) fun n => ?_
    simp [toSet, ha]
  | none =>
    refine ⟨hs.record name ha, trivial, (fun h => nomatch h), fun _ => rfl, fun n => ?_, fun _ n hn => ?_⟩
    · rw [statuses_record hs]
      by_cases h : n = name
      · subst h
        simp [toSet, ha]
      · simp [toSet, h, Ne.symm h]
    · rw [statuses_record hs]
      split
      · next h =>
        subst h
        have ho : fresh time nodes n a = false := by simpa [toSet, ha] using hn
        simp [ho]
      · rfl

lemma replacing_spec (hs : s.Consistent enc) {name : Text} {kept : List α} {todo : List (Text × ℤ)}
    (ht : Rely enc time nodes s (replacing name kept todo)) :
    StepSpec enc time nodes s (next enc sorting s (replacing name kept todo)).1
      (replacing name kept todo) (next enc sorting s (replacing name kept todo)).2 := by
  obtain ⟨htd, hm, hk, hp⟩ := ht
  obtain ⟨s', hr, hs', hm', hst, -⟩ := replaceNodeStatuses_spec hs hm name hk
  have hn : next enc sorting s (replacing name kept todo) = (s', .purge todo) := by simp only [next, hr]
  rw [hn]
  refine ⟨hs', htd, fun _ => rfl, fun _ => hm', fun n => ?_, fun h => nomatch h⟩
  rw [hst]
  split
  · next h =>
    subst h
    simpa [toSet] using hp
  · rfl

lemma next_spec (hs : s.Consistent enc) (ht : Rely enc time nodes s t) :
    StepSpec enc time nodes s (next enc sorting s t).1 t (next enc sorting s t).2 := by
  cases t with
  | update name a => exact update_spec hs name a
  | replacing name kept todo => exact replacing_spec sorting hs ht
  | finished => exact .idle hs trivial (fun h => h) fun _ => rfl
  | purge todo =>
    cases todo with
    | nil => exact .idle hs trivial (fun h => nomatch h) fun _ => rfl
    | cons x todo =>
      obtain ⟨name, cutoff⟩ := x
      cases hm : s.objs.isSome with
      | false =>
        have hr : ∃ e, s.allNodeStatuses name = .error e := by
          obtain rfl | ⟨objs, lists, rfl⟩ := hs.cases
          · exact ⟨_, rfl⟩
          · cases hm
        obtain ⟨e, he⟩ := hr
        have hn : next enc sorting s (purge ((name, cutoff) :: todo)) = (s, .finished) := by
          simp only [next, he]
        rw [hn]
        exact .idle hs trivial (fun h => nomatch h) fun _ => rfl
      | true =>
        have hn : next enc sorting s (purge ((name, cutoff) :: todo)) =
            (s, afterRead sorting name cutoff todo (s.statuses name)) := by
          simp only [next, allNodeStatuses_eq hs hm name]
        rw [hn]
        exact .idle hs (afterRead_rely sorting hs hm ht) (fun _ => rfl) fun n => by
          unfold afterRead
          split
          · rfl
          · split <;> rfl

lemma StepSpec.other (h : StepSpec enc time nodes s s' t t') (hu : Rely enc time nodes s u)
    (ho : OnePurge t u) (ha : Apart enc time nodes s t u) : Rely enc time nodes s' u := by
  cases u with
  | update name a => trivial
  | purge todo => exact hu
  | finished => trivial
  | replacing name kept todo =>
    obtain ⟨ht, hm, hk, hpr⟩ := hu
    have hi : t.purging = false := by
      cases hp : t.purging with
      | false => rfl
      | true => exact absurd ⟨hp, rfl⟩ ho
    exact ⟨ht, h.made hm, hk, hpr.trans (h.others hi name ha).symm⟩

variable (enc nodes) in
lemma next_preserves : Pool.Preserves (next enc sorting) (Apart enc time nodes)
    (StatusStore.Consistent enc) (Rely enc time nodes) OnePurge where
  symm _ _ h hp := h ⟨hp.2, hp.1⟩
  own _ _ hs ht := ⟨(next_spec sorting hs ht).consistent, (next_spec sorting hs ht).rely⟩
  other _ _ _ hs ht hu ho ha :=
    ⟨(next_spec sorting hs ht).other hu ho ha, fun hp => ho ⟨(next_spec sorting hs ht).purging hp.1, hp.2⟩⟩

end

section

variable {p : Pool (StatusStore α) (PurgeTask α)}

lemma total_step (hp : p.Holds (StatusStore.Consistent enc) (Rely enc time nodes) OnePurge) (i : ℕ) (n : Text) :
    (total enc time nodes (p.step (next enc sorting) i) n).Perm (total enc time nodes p n) := by
  cases hi : p.threads[i]? with
  | none => rw [Pool.step_none hi]
  | some t =>
    rw [Pool.step_some hi]
    obtain ⟨hlt, hg⟩ := List.getElem?_eq_some_iff.mp hi
    have hsp := (next_spec sorting hp.shared (hp.each i t hi)).total n
    have ho : p.threads.Perm (t :: p.threads.eraseIdx i) := by
      rw [← hg]
      exact (getElem_cons_eraseIdx_perm hlt).symm
    have hn := fun t' => set_perm_cons_eraseIdx (a := t') hlt
    -- the step changes the store and one task, and the others are counted as before
    have hs : ∀ (l : List α) (t : PurgeTask α) (us : List (PurgeTask α)),
        (l ++ (t :: us).filterMap (toSet enc n)).filter (fresh time nodes n) =
          (l ++ (toSet enc n t).toList).filter (fresh time nodes n) ++
            (us.filterMap (toSet enc n)).filter (fresh time nodes n) := by
      intro l t us
      rw [filterMap_cons, ← filter_append]
      cases toSet enc n t <;> simp
    rw [total, total]
    refine (((hn _).filterMap _).append_left _ |>.filter _).trans ?_
    refine List.Perm.trans ?_ ((ho.filterMap _).append_left _ |>.filter _).symm
    rw [hs, hs]
    exact hsp.append_right _

lemma total_run (hp : p.Holds (StatusStore.Consistent enc) (Rely enc time nodes) OnePurge)
    {schedule : List ℕ} (hq : p.QuietRun (next enc sorting) (Apart enc time nodes) schedule)
    (n : Text) : (total enc time nodes (p.run (next enc sorting) schedule) n).Perm (total enc time nodes p n) := by
  induction schedule generalizing p with
  | nil => rfl
  | cons i schedule ih =>
    exact (ih (hp.step (next_preserves enc nodes sorting) hq.1) hq.2).trans (total_step sorting hp i n)

lemma start_holds (hs : s.Consistent enc) (updates : List (Text × α)) :
    (start s nodes updates).Holds (StatusStore.Consistent enc) (Rely enc time nodes) OnePurge := by
  have hl : ∀ {i : ℕ} {t : PurgeTask α}, (start s nodes updates).threads[i + 1]? = some t →
      ∃ name a, t = update name a := by
    intro i t h
    have ht : t ∈ updates.map fun u => update u.1 u.2 := mem_of_getElem? (i := i) h
    obtain ⟨u, -, rfl⟩ := mem_map.mp ht
    exact ⟨u.1, u.2, rfl⟩
  refine ⟨hs, fun i t h => ?_, fun i j t u hij hi hj hp => ?_⟩
  · cases i with
    | zero =>
      obtain rfl : purge nodes = t := by simpa [start] using h
      exact fun x hx => hx
    | succ i =>
      obtain ⟨name, a, rfl⟩ := hl h
      trivial
  · -- only the first task is a purge, so two different tasks cannot both be one
    cases i with
    | succ i =>
      obtain ⟨name, a, rfl⟩ := hl hi
      exact absurd hp.1 Bool.false_ne_true
    | zero =>
      cases j with
      | zero => exact hij rfl
      | succ j =>
        obtain ⟨name, a, rfl⟩ := hl hj
        exact absurd hp.2 Bool.false_ne_true

lemma total_start (s : StatusStore α) (updates : List (Text × α)) (n : Text) :
    total enc time nodes (start s nodes updates) n =
      (s.statuses n ++ accepted enc updates n).filter (fresh time nodes n) := by
  have hs : (start s nodes updates).threads.filterMap (toSet enc n) = accepted enc updates n := by
    rw [start, filterMap_cons_none rfl, filterMap_map]
    rfl
  rw [total, hs, start]

lemma total_finished (hf : ∀ t ∈ p.threads, t.isFinished = true) (n : Text) :
    total enc time nodes p n = (p.shared.statuses n).filter (fresh time nodes n) := by
  have hn : p.threads.filterMap (toSet enc n) = [] := by
    refine filterMap_eq_nil_iff.mpr fun t ht => ?_
    have := hf t ht
    cases t <;> first | rfl | cases this
  rw [total, hn, append_nil]

/-- If no fresh status of a node is set between the purge's reading of its statuses and their replacement, then after
all tasks the fresh statuses of each node are those that were stored or set. -/
theorem fresh_statuses_kept (hs : s.Consistent enc) (nodes : List (Text × ℤ)) (updates : List (Text × α))
    (schedule : List ℕ) (hquiet : (start s nodes updates).QuietRun (next enc sorting) (Apart enc time nodes) schedule)
    (hfin : ∀ t ∈ ((start s nodes updates).run (next enc sorting) schedule).threads, t.isFinished = true)
    (n : Text) : ((((start s nodes updates).run (next enc sorting) schedule).shared.statuses n).filter
        (fresh time nodes n)).Perm ((s.statuses n ++ accepted enc updates n).filter (fresh time nodes n)) := by
  rw [← total_finished hfin n, ← total_start s updates n]
  exact total_run sorting (start_holds hs updates) hquiet n

lemma deleteByAge_store (name : Text) (cutoff : ℤ) (nodes : List (Text × ℤ)) :
    (deleteByAge enc sorting ((name, cutoff) :: nodes) s).2 = match purgeNode enc sorting s name cutoff with
      | (.error _, s) => s
      | (.ok _, s) => (deleteByAge enc sorting nodes s).2 := by
  rw [deleteByAge]
  split
  · simp [*]
  · split <;> simp [*]

/-- The steps of a purge that nothing comes between do what `DeleteNodeStatusesByAge` does. -/
theorem purge_alone (s : StatusStore α) (nodes : List (Text × ℤ)) (others : List (PurgeTask α)) :
    Relation.ReflTransGen (fun p q => Pool.step (next enc sorting) p 0 = q) ⟨s, purge nodes :: others⟩
      ⟨(deleteByAge enc sorting nodes s).2, finished :: others⟩ := by
  induction nodes generalizing s with
  | nil => exact .single rfl
  | cons x nodes ih =>
    obtain ⟨name, cutoff⟩ := x
    rw [deleteByAge_store, purgeNode]
    refine .head rfl ?_
    simp only [Pool.step, getElem?_cons_zero, set_cons_zero, next]
    cases s.allNodeStatuses name with
    | error e => exact .refl
    | ok statuses =>
      simp only [afterRead]
      cases sorting.sort statuses with
      | nil => exact ih s
      | cons first rest =>
        simp only
        split
        · exact ih s
        · refine .head rfl ?_
          simp only [getElem?_cons_zero, set_cons_zero]
          cases s.replaceNodeStatuses enc name (keptAfter time cutoff (first :: rest)) with
          | mk answer s' =>
            cases answer with
            | error e => exact .refl
            | ok _ => exact ih s'

section

open Retention (statusAt)

def webPurge : Pool (StatusStore NodeStatus) (PurgeTask NodeStatus) :=
  start (Retention.oneStatus 1).store [("web", 5)] [("web", statusAt 10)]

theorem fresh_statuses_kept_web :
    ((((webPurge.run (next (fun _ => none) (.insertion NodeStatus.updatedAt)) [0, 0, 1, 0]).shared.statuses
        "web").filter (fresh NodeStatus.updatedAt [("web", 5)] "web"))).Perm
      (((Retention.oneStatus 1).store.statuses "web" ++ accepted (fun _ => none) [("web", statusAt 10)] "web").filter
          (fresh NodeStatus.updatedAt [("web", 5)] "web")) :=
  fresh_statuses_kept (.insertion NodeStatus.updatedAt) (Retention.oneStatus 1).consistent [("web", 5)]
    [("web", statusAt 10)] [0, 0, 1, 0] (by decide +kernel) (by decide +kernel) "web"

theorem fresh_status_lost :
    let last := webPurge.run (next (fun _ => none) (.insertion NodeStatus.updatedAt)) [0, 1, 0, 0]
    (∀ t ∈ last.threads, t.isFinished = true) ∧
    fresh NodeStatus.updatedAt [("web", 5)] "web" (statusAt 10) = true ∧
    last.shared.statuses "web" = [] := by
  refine ⟨by decide +kernel, by decide +kernel, ?_⟩
  exact eq_nil_of_length_eq_zero (by decide +kernel)

end

end

end PurgeTask

end Goiardi.Nodes
