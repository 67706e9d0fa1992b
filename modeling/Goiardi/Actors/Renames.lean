import Goiardi.Actors.Effects

/-! `Rename` followed by `Save`. -/

namespace Goiardi.Actors

inductive Role
  | client
  | user
deriving DecidableEq

abbrev Slot := Role × Text

def World.at (w : World) : Slot → Option Actor
  | (.client, name) => (w.clients.find name).map .client
  | (.user, name) => (w.users.find name).map .user

def World.TidyIn (w : World) : Role → Prop
  | .client => w.clients.Tidy Client.name
  | .user => w.users.Tidy User.username

namespace Actor

def role : Actor → Role
  | client _ => .client
  | user _ => .user

def slot (a : Actor) : Slot := (a.role, a.name)

def renamed : Actor → Text → Actor
  | client c, newName => .client (c.renamed newName)
  | user u, newName => .user (u.renamed newName)

def renameAndSave (env : Env) : Actor → Text → Handler Unit
  | client c, newName => do
    let h ← getClient c.name
    let h ← Client.rename env h newName
    Client.save env h
  | user u, newName => do
    let h ← getUser u.username
    let h ← User.rename env h newName
    User.save env h

structure Moved (w w' : World) (a : Actor) (newName : Text) : Prop where
  gone : w'.at a.slot = none
  here : w'.at (a.role, newName) = some (a.renamed newName)
  others : ∀ s, s ≠ a.slot → s ≠ (a.role, newName) → w'.at s = w.at s

end Actor

/-- A shelf of the world and its records as actors. `Save` looks for the name on the other shelf. -/
structure Side (α : Type) extends Kind α where
  role : Role
  name : α → Text
  actor : α → Actor
  save : Env → Cell α → Handler Unit
  slot_actor : ∀ a, (actor a).slot = (role, name a)
  at_withShelf : ∀ s w r k, (withShelf s w).at (r, k) = if r = role then (s.find k).map actor else w.at (r, k)
  tidyIn_withShelf : ∀ s w r, (withShelf s w).TidyIn r = if r = role then s.Tidy name else w.TidyIn r
  save_run : ∀ env h w, (∃ e, save env h w = .error e w) ∨ (∀ r, r ≠ role → w.at (r, name h.val) = none) ∧
    save env h w = .ok () (withShelf ((shelf w).put env.mode (name h.val) h) w)

def clientSide : Side Client where
  toKind := clientKind
  role := .client
  name := Client.name
  actor := .client
  save := Client.save
  slot_actor _ := rfl
  at_withShelf _ _ r _ := by cases r <;> rfl
  tidyIn_withShelf _ _ r := by cases r <;> rfl
  save_run env h w := by
    by_cases hf : w.users.get h.val.name = none
    · refine .inr ⟨fun r hr => ?_, Client.save_free hf⟩
      cases r with
      | client => exact absurd rfl hr
      | user => exact congrArg (Option.map Actor.user) (Shelf.find_eq_none.mpr hf)
    · exact .inl ⟨_, Client.save_taken hf⟩

def userSide : Side User where
  toKind := userKind
  role := .user
  name := User.username
  actor := .user
  save := User.save
  slot_actor _ := rfl
  at_withShelf _ _ r _ := by cases r <;> rfl
  tidyIn_withShelf _ _ r := by cases r <;> rfl
  save_run env h w := by
    by_cases hf : w.clients.get h.val.username = none
    · refine .inr ⟨fun r hr => ?_, User.save_free hf⟩
      cases r with
      | client => exact congrArg (Option.map Actor.client) (Shelf.find_eq_none.mpr hf)
      | user => exact absurd rfl hr
    · exact .inl ⟨_, User.save_taken hf⟩

namespace Side

variable {α : Type} (S : Side α) {env : Env} {w w' : World} {s : Shelf α} {n : Text} {h : Cell α}

lemma at_shelf (w : World) (k : Text) : w.at (S.role, k) = ((S.shelf w).find k).map S.actor := by
  have hs := S.at_withShelf (S.shelf w) w S.role k
  rwa [S.withShelf_shelf, if_pos rfl] at hs

lemma at_update {v : Option α} (hf : ∀ k, s.find k = if k = n then v else (S.shelf w).find k) :
    (S.withShelf s w).at = Function.update w.at (S.role, n) (v.map S.actor) := by
  funext ⟨r, k⟩
  rw [S.at_withShelf]
  by_cases hr : r = S.role
  · subst hr
    rw [if_pos rfl, hf, Function.update_apply, S.at_shelf, apply_ite (Option.map S.actor)]
    simp
  · rw [if_neg hr, Function.update_of_ne fun heq => hr (congrArg Prod.fst heq)]

lemma stored (hw : (S.shelf w).Tidy S.name) (hget : (S.shelf w).get n = some h) :
    w.at (S.actor h.val).slot = some (S.actor h.val) := by
  rw [S.slot_actor, hw.named n h hget, S.at_shelf, Shelf.find_of_get hget]
  rfl

lemma save_inv (hr : S.save env h w = .ok () w') : w' = S.withShelf ((S.shelf w).put env.mode (S.name h.val) h) w := by
  rcases S.save_run env h w with ⟨e, hs⟩ | ⟨-, hs⟩
  · cases hs.symm.trans hr
  · cases hs.symm.trans hr
    rfl

end Side

section

variable {env : Env} {w w' : World} {newName : Text}

lemma Client.rename_ok {h h' : Cell Client} (hr : Client.rename env h newName w = .ok h' w') :
    h.val.renameChecks w newName = .ok () ∧ h' = ⟨h.id, h.val.renamed newName⟩ ∧
      w' = clientKind.leave env (w.withoutClient h.val.name) h (h.val.renamed newName) := by
  cases hrn : h.val.renameChecks w newName with
  | error e => cases (check_bind_error hrn).symm.trans hr
  | ok _ =>
    cases (check_bind_ok hrn).symm.trans hr
    exact ⟨rfl, rfl, rfl⟩

lemma User.rename_ok {h h' : Cell User} (hr : User.rename env h newName w = .ok h' w') :
    h.val.renameChecks w newName = .ok () ∧ h' = ⟨h.id, h.val.renamed newName⟩ ∧
      w' = userKind.leave env (w.withoutClient h.val.username) h (h.val.renamed newName) := by
  cases hrn : h.val.renameChecks w newName with
  | error e => cases (check_bind_error hrn).symm.trans hr
  | ok _ =>
    cases (check_bind_ok hrn).symm.trans hr
    exact ⟨rfl, rfl, rfl⟩

lemma Client.moved {c : Client} {h : Cell Client} (hw : w.clients.Tidy Client.name)
    (hg : w.clients.get c.name = some h) (hc : h.val = c)
    (hr : (Actor.client c).renameAndSave env newName w = .ok () w') : (Actor.client c).Moved w w' newName := by
  obtain ⟨h₀, w₀, hfn, hr⟩ := run_bind_inv hr
  rw [(looks_getClient _ _).found hg] at hfn
  cases hfn
  obtain ⟨h₁, w₁, hrn, hs⟩ := run_bind_inv hr
  obtain ⟨hre, rfl, rfl⟩ := Client.rename_ok hrn
  subst hc
  have hfr := (Client.renameChecks_ok hre).2.2.2
  have hne : newName ≠ h.val.name := by
    intro heq
    rw [heq, hg] at hfr
    cases hfr
  rw [Client.leave_withoutClient env hw hg rfl] at hs
  have hw' := clientSide.save_inv hs
  have hl : (w.clients.remove h.val.name).Loose ⟨h.id, h.val.renamed newName⟩ := hw.loose_remove hg rfl
  have hf : ∀ k, w'.clients.find k =
      if k = newName then some (h.val.renamed newName) else (w.clients.remove h.val.name).find k := by
    intro k
    rw [hw']
    exact hl.synced.find_put
  refine ⟨?_, ?_, ?_⟩
  · have hgn := hf h.val.name
    rw [if_neg hne.symm, Shelf.find_remove_self] at hgn
    exact congrArg (Option.map Actor.client) hgn
  · have hh := hf newName
    rw [if_pos rfl] at hh
    exact congrArg (Option.map Actor.client) hh
  · rintro ⟨role, k⟩ ho hn
    cases role with
    | client =>
      have hk := hf k
      have hkn : k ≠ newName := fun heq => hn (congrArg (Prod.mk Role.client) heq)
      have hko : k ≠ h.val.name := fun heq => ho (congrArg (Prod.mk Role.client) heq)
      rw [if_neg hkn, Shelf.find_remove_of_ne hko] at hk
      exact congrArg (Option.map Actor.client) hk
    | user =>
      rw [hw']
      rfl

lemma User.stays {u : User} {h : Cell User} (hg : w.users.get u.username = some h)
    (hr : (Actor.user u).renameAndSave env newName w = .ok () w') : w'.users.find u.username ≠ none := by
  obtain ⟨h₀, w₀, hf, hr⟩ := run_bind_inv hr
  rw [(looks_getUser _ _).found hg] at hf
  cases hf
  obtain ⟨h₁, w₁, hrn, hsv⟩ := run_bind_inv hr
  obtain ⟨hre, rfl, rfl⟩ := User.rename_ok hrn
  have hfr := (User.renameChecks_ok hre).2.2.2
  have hne : u.username ≠ newName := by
    intro heq
    rw [← heq, hg] at hfr
    cases hfr
  have hw' := userSide.save_inv hsv
  have hst : w'.users.get u.username = (w.users.assign env.mode h (h.val.renamed newName)).get u.username := by
    rw [hw']
    exact Shelf.get_assign_put hne
  intro hn
  have hs : ((w.users.assign env.mode h (h.val.renamed newName)).get u.username).isSome =
      (w.users.get u.username).isSome := Shelf.isSome_get_assign
  rw [← hst, Shelf.find_eq_none.mp hn, hg] at hs
  cases hs

end

/-- `Rename` and `Save` move the record of a client and never that of a user. -/
theorem renameAndSave_moved_iff (env : Env) (w w' : World) (hw : w.clients.Tidy Client.name) (a : Actor) (newName : Text)
    (ha : w.at a.slot = some a) (hrun : a.renameAndSave env newName w = .ok () w') :
    a.Moved w w' newName ↔ ∃ c, a = .client c := by
  cases a with
  | client c =>
    obtain ⟨c', hf, hc⟩ := Option.map_eq_some_iff.mp ha
    obtain ⟨h, hg, hv⟩ := Shelf.find_eq_some.mp hf
    cases hc
    exact ⟨fun _ => ⟨c, rfl⟩, fun _ => Client.moved hw hg hv hrun⟩
  | user u =>
    obtain ⟨u', hf, hu⟩ := Option.map_eq_some_iff.mp ha
    obtain ⟨h, hg, -⟩ := Shelf.find_eq_some.mp hf
    cases hu
    constructor
    · intro hm
      have hgn : w'.users.find u.username = none := Option.map_eq_none_iff.mp hm.gone
      exact absurd hgn (User.stays hg hrun)
    · rintro ⟨c, hc⟩
      cases hc

def annaUser : User := User.new "anna" []

def webClient : Client := Client.new "web"

def smallWorld : World :=
  ⟨Shelf.empty.put .copying "web" (Shelf.empty.fresh webClient),
    Shelf.empty.put .copying "anna" (Shelf.empty.fresh annaUser)⟩

def openCrypto : Crypto := ⟨fun _ => none, fun password _ => password⟩

def copyingEnv : Env := ⟨.copying, true, openCrypto, []⟩

lemma smallWorld_tidy : smallWorld.clients.Tidy Client.name := Shelf.tidy_empty.put_fresh .copying webClient

theorem renameAndSave_moved_iff_web : (Actor.client webClient).Moved smallWorld
      (smallWorld.after ((Actor.client webClient).renameAndSave copyingEnv "app")) "app" :=
  (renameAndSave_moved_iff copyingEnv _ _ smallWorld_tidy (.client webClient) _ rfl rfl).mpr ⟨_, rfl⟩

theorem renameAndSave_user_twice : ∃ w', (Actor.user annaUser).renameAndSave copyingEnv "bert" smallWorld = .ok () w' ∧
    w'.users.find "anna" = some annaUser ∧ w'.users.find "bert" = some (annaUser.renamed "bert") ∧
      ¬ (Actor.user annaUser).Moved smallWorld w' "bert" := by
  refine ⟨_, rfl, rfl, rfl, fun h => ?_⟩
  have hg := h.gone
  cases hg

end Goiardi.Actors
