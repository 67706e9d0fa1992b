import Goiardi.Actors.Privilege
import Goiardi.Base.Interleaving

/-! Requests that run at the same time: the check against the other kind and the store are two steps. -/

namespace Goiardi.Actors

open List

inductive Action
  | check (s : Slot)
  | isNew (s : Slot)
  | drop (name : Text)
  | set (a : Actor)

def World.set (env : Env) (w : World) : Actor → World
  | .client c => { w with clients := w.clients.put env.mode c.name (w.clients.fresh c) }
  | .user u => { w with users := w.users.put env.mode u.username (w.users.fresh u) }

namespace Action

def perform (env : Env) (w : World) : Action → Option World
  | check (.client, name) => (chkInMemUser w name).toOption.map fun _ => w
  | check (.user, name) => (chkInMemClient w name).toOption.map fun _ => w
  | isNew s => if (w.at s).isNone then some w else none
  | drop name => some (w.withoutClient name)
  | set a => some (w.set env a)

end Action

inductive Task
  | create (a : Actor)
  | update (a : Actor)
  | rename (old : Text) (a : Actor)

-- `Rename` makes the same check as `Save`, and drops the old name from the clients
def Task.program : Task → List Action
  | create a => [.isNew a.slot, .check a.slot, .set a]
  | update a => [.check a.slot, .set a]
  | rename old a => [.check a.slot, .isNew a.slot, .drop old, .check a.slot, .set a]

def advance (env : Env) (w : World) : List Action → World × List Action
  | [] => (w, [])
  | x :: rest =>
    match x.perform env w with
    | some w' => (w', rest)
    | none => (w, [])

def start (w : World) (tasks : List Task) : Pool World (List Action) := ⟨w, tasks.map Task.program⟩

def Apart (t u : List Action) : Prop :=
  ∀ a rest b rest', t = .set a :: rest → u = .set b :: rest' → a.name = b.name → a.role = b.role

def Calm (_ : World) (t u : List Action) : Prop :=
  ∀ s a rest b rest', t = .check s :: .set a :: rest → u = .set b :: rest' → a.name = b.name → a.role = b.role

structure Ready (w : World) (t : List Action) : Prop where
  program : ∃ task : Task, t <:+ task.program
  free : ∀ a rest, t = .set a :: rest → ∀ role, w.at (role, a.name) = none ∨ role = a.role

section

variable {t rest : List Action} {task : Task} {a b : Actor} {s : Slot} {old : Text}

lemma check_before_set (h : .check s :: .set a :: rest <:+ task.program) : s = a.slot := by
  cases task <;> simp [Task.program, suffix_cons_iff] at h <;> grind

lemma not_isNew_before_set (h : .isNew s :: .set a :: rest <:+ task.program) : False := by
  cases task <;> simp [Task.program, suffix_cons_iff] at h

lemma not_drop_before_set (h : .drop old :: .set a :: rest <:+ task.program) : False := by
  cases task <;> simp [Task.program, suffix_cons_iff] at h

lemma not_set_before_set (h : .set b :: .set a :: rest <:+ task.program) : False := by
  cases task <;> simp [Task.program, suffix_cons_iff] at h

lemma program_ne_set : task.program ≠ .set a :: rest := by
  cases task <;> simp [Task.program]

end

section

variable {env : Env} {w w' : World} {x : Action} {t u rest : List Action} {a : Actor} {s : Slot}

lemma World.at_set (env : Env) (w : World) (a : Actor) : (w.set env a).at = Function.update w.at a.slot (some a) := by
  cases a with
  | client c =>
    exact clientSide.at_update (v := some c) fun _ => (Shelf.loose_fresh w.clients c).synced.find_put
  | user u =>
    exact userSide.at_update (v := some u) fun _ => (Shelf.loose_fresh w.users u).synced.find_put

lemma perform_check (h : (Action.check s).perform env w = some w') :
    w' = w ∧ ∀ role, w.at (role, s.2) = none ∨ role = s.1 := by
  obtain ⟨role, name⟩ := s
  cases role with
  | client =>
    by_cases hf : w.users.get name = none
    · rw [Action.perform, chkInMemUser, require, if_pos hf] at h
      cases h
      refine ⟨rfl, fun role => ?_⟩
      cases role with
      | client => exact .inr rfl
      | user => exact .inl (congrArg (Option.map Actor.user) (Shelf.find_eq_none.mpr hf))
    · rw [Action.perform, chkInMemUser, require, if_neg hf] at h
      cases h
  | user =>
    by_cases hf : w.clients.get name = none
    · rw [Action.perform, chkInMemClient, require, if_pos hf] at h
      cases h
      refine ⟨rfl, fun role => ?_⟩
      cases role with
      | client => exact .inl (congrArg (Option.map Actor.client) (Shelf.find_eq_none.mpr hf))
      | user => exact .inr rfl
    · rw [Action.perform, chkInMemClient, require, if_neg hf] at h
      cases h

lemma perform_isNew (h : (Action.isNew s).perform env w = some w') : w' = w := by
  rw [Action.perform] at h
  split at h
  · cases h
    rfl
  · cases h

lemma Ready.tail (h : Ready w (x :: rest)) (hst : ∀ a rest', rest ≠ .set a :: rest') : Ready w' rest := by
  obtain ⟨task, hs⟩ := h.program
  exact ⟨⟨task, (suffix_cons _ _).trans hs⟩, fun a rest' heq => absurd heq (hst a rest')⟩

lemma advance_some (h : x.perform env w = some w') : advance env w (x :: rest) = (w', rest) := by
  rw [advance, h]

lemma advance_none (h : x.perform env w = none) : advance env w (x :: rest) = (w, []) := by
  rw [advance, h]

lemma advance_own (hex : Exclusive w.at) (ht : Ready w t) :
    Exclusive (advance env w t).1.at ∧ Ready (advance env w t).1 (advance env w t).2 := by
  cases t with
  | nil => exact ⟨hex, ht⟩
  | cons x rest =>
    cases hx : x.perform env w with
    | none =>
      rw [advance_none hx]
      obtain ⟨task, -⟩ := ht.program
      exact ⟨hex, ⟨task, nil_suffix⟩, fun a rest hs => by cases hs⟩
    | some w' =>
      rw [advance_some hx]
      obtain ⟨task, hs⟩ := ht.program
      cases x with
      | check s =>
        obtain ⟨rfl, hf⟩ := perform_check hx
        refine ⟨hex, ⟨task, (suffix_cons _ _).trans hs⟩, fun a rest' heq role => ?_⟩
        subst heq
        obtain rfl := check_before_set hs
        exact hf role
      | isNew s =>
        obtain rfl := perform_isNew hx
        refine ⟨hex, ht.tail fun a rest' heq => ?_⟩
        subst heq
        exact not_isNew_before_set hs
      | drop old =>
        cases hx
        refine ⟨?_, ht.tail fun a rest' heq => ?_⟩
        · rw [World.at_withoutClient]
          exact hex.removed _
        · subst heq
          exact not_drop_before_set hs
      | set b =>
        cases hx
        refine ⟨?_, ht.tail fun a rest' heq => ?_⟩
        · rw [World.at_set]
          exact hex.added (ht.free b rest rfl)
        · subst heq
          exact not_set_before_set hs

lemma advance_other (ht : Ready w t) (hu : Ready w u) (ha : Apart t u) (hc : Calm w t u) :
    Ready (advance env w t).1 u ∧ Apart (advance env w t).2 u := by
  have hnl : Apart [] u := fun _ _ _ _ h => by cases h
  cases t with
  | nil => exact ⟨hu, hnl⟩
  | cons x rest =>
    cases hx : x.perform env w with
    | none =>
      rw [advance_none hx]
      exact ⟨hu, hnl⟩
    | some w' =>
      rw [advance_some hx]
      obtain ⟨task, hs⟩ := ht.program
      cases x with
      | check s =>
        obtain ⟨rfl, -⟩ := perform_check hx
        refine ⟨hu, fun a rest' b rest'' heq hb hn => ?_⟩
        subst heq
        exact hc s a rest' b rest'' rfl hb hn
      | isNew s =>
        obtain rfl := perform_isNew hx
        refine ⟨hu, fun a rest' b rest'' heq hb hn => ?_⟩
        subst heq
        exact (not_isNew_before_set hs).elim
      | drop old =>
        cases hx
        refine ⟨⟨hu.program, fun b rest' hb role => ?_⟩, fun a rest' b rest'' heq hb hn => ?_⟩
        · rw [World.at_withoutClient]
          exact (hu.free b rest' hb role).imp_left update_none_of_none
        · subst heq
          exact (not_drop_before_set hs).elim
      | set a =>
        cases hx
        refine ⟨⟨hu.program, fun b rest' hb role => ?_⟩, fun a' rest' b rest'' heq hb hn => ?_⟩
        · rw [World.at_set]
          by_cases hsl : (role, b.name) = a.slot
          · have hn : b.name = a.name := congrArg Prod.snd hsl
            have hr : role = a.role := congrArg Prod.fst hsl
            exact .inr (hr.trans (ha a rest b rest' rfl hb hn.symm))
          · rw [Function.update_of_ne hsl]
            exact hu.free b rest' hb role
        · subst heq
          exact (not_set_before_set hs).elim

lemma advance_preserves (env : Env) : Pool.Preserves (advance env) Calm (fun w => Exclusive w.at) Ready Apart where
  symm _ _ h a rest b rest' ha hb hn := (h b rest' a rest hb ha hn.symm).symm
  own _ _ hex ht := advance_own hex ht
  other _ _ _ _ ht hu hap hc := advance_other ht hu hap hc

lemma start_holds (hex : Exclusive w.at) (tasks : List Task) :
    (start w tasks).Holds (fun w => Exclusive w.at) Ready Apart := by
  have hp : ∀ (i : ℕ) t, (start w tasks).threads[i]? = some t → ∃ task : Task, t = task.program := by
    intro i t ht
    obtain ⟨task, -, rfl⟩ := mem_map.mp (mem_of_getElem? ht)
    exact ⟨task, rfl⟩
  refine ⟨hex, fun i t ht => ?_, fun i j t u _ ht _ a rest b rest' ha => ?_⟩
  · obtain ⟨task, rfl⟩ := hp i t ht
    exact ⟨⟨task, suffix_rfl⟩, fun a rest heq => absurd heq program_ne_set⟩
  · obtain ⟨task, rfl⟩ := hp i t ht
    exact absurd ha program_ne_set

end

/-- No name becomes that of a client and of a user if no request makes its last check for a name while one of the other
kind is between its own check and its store for that name. -/
theorem run_exclusive (env : Env) (w : World) (tasks : List Task) (schedule : List ℕ) (hex : Exclusive w.at)
    (hcalm : (start w tasks).QuietRun (advance env) Calm schedule) :
    Exclusive ((start w tasks).run (advance env) schedule).shared.at :=
  ((start_holds hex tasks).run (advance_preserves env) schedule hcalm).shared

def storesNext : List Action → Bool
  | .set _ :: _ => true
  | _ => false

lemma quiet_of_all {p : Pool World (List Action)} {i : ℕ} (h : ∀ u ∈ p.threads.eraseIdx i, storesNext u = false) :
    p.Quiet Calm i := by
  rintro j t u hj - hu s a rest b rest' - rfl
  have hb := h (.set b :: rest') (mem_eraseIdx_iff_getElem?.mpr ⟨j, hj, hu⟩)
  cases hb

def emptyWorld : World := ⟨Shelf.empty, Shelf.empty⟩

def twoTasks : List Task := [.create (.client (Client.new "dev")), .create (.user (User.new "dev" []))]

theorem run_exclusive_one_by_one :
    Exclusive ((start emptyWorld twoTasks).run (advance copyingEnv) [0, 0, 0, 1, 1, 1]).shared.at :=
  run_exclusive copyingEnv emptyWorld twoTasks [0, 0, 0, 1, 1, 1] (fun _ => .inl rfl)
    ⟨quiet_of_all (by decide +kernel), quiet_of_all (by decide +kernel), quiet_of_all (by decide +kernel),
      quiet_of_all (by decide +kernel), quiet_of_all (by decide +kernel), quiet_of_all (by decide +kernel), trivial⟩

theorem run_not_exclusive : Exclusive emptyWorld.at ∧
    ¬ Exclusive ((start emptyWorld twoTasks).run (advance copyingEnv) [0, 0, 1, 1, 0, 1]).shared.at := by
  refine ⟨fun _ => .inl rfl, fun hex => ?_⟩
  have hb := hex "dev"
  revert hb
  decide +kernel

end Goiardi.Actors
