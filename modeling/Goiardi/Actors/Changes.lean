import Goiardi.Actors.Refusals

/-! What one request can do to the stored actors, said once. -/

namespace Goiardi.Actors

open Validation World Actor

namespace Operation

def role : Operation → Role
  | listClients | createClient _ | getClient _ | putClient .. | deleteClient _ => .client
  | listUsers | createUser _ | getUser _ | putUser .. | deleteUser _ => .user

def renamesUser : Operation → Bool
  | putUser name (.ok data) =>
    match lookupField data nameField with
    | .str newName => newName ≠ name
    | _ => false
  | _ => false

end Operation

def Actor.admin : Actor → Bool
  | client c => c.admin
  | user u => u.admin

namespace World

def isLastAdmin (w : World) : Actor → Bool
  | .client c => clientKind.isLastAdmin w c
  | .user u => userKind.isLastAdmin w u

def losesAdmin (w : World) : Operation → Bool
  | .putClient name (.ok data) =>
    (data.lookup adminField).isNone && (w.clients.find name).any (clientKind.isLastAdmin w)
  | _ => false

def Free (w : World) (name : Text) : Prop := ∀ role, w.at (role, name) = none

end World

def Actor.May (env : Env) (op a : Actor) : Prop := op.isAdmin env.useAuth = true ∨ op.isSelf env.useAuth a = true

inductive Change (env : Env) (op : Actor) (w : World) (o : Operation) : (Slot → Option Actor) → Prop
  | same : Change env op w o w.at
  | removed {a : Actor} (stored : w.at a.slot = some a) (role : a.role = o.role) (may : op.May env a)
      (notLast : w.isLastAdmin a = false) : Change env op w o (Function.update w.at a.slot none)
  | written {a a' : Actor} (stored : w.at a.slot = some a) (role : a.role = o.role) (may : op.May env a)
      (slot : a'.slot = a.slot) (keeps : w.isLastAdmin a = true → w.losesAdmin o = false → a'.admin = true)
      (plain : op.isAdmin env.useAuth = false → a.admin = false → a'.admin = false) :
      Change env op w o (Function.update w.at a.slot (some a'))
  | moved {a a' : Actor} (stored : w.at a.slot = some a) (role : a.role = o.role) (may : op.May env a)
      (notLast : w.isLastAdmin a = false) (role' : a'.role = a.role) (free : w.Free a'.name)
      (plain : op.isAdmin env.useAuth = false → a.admin = false → a'.admin = false) :
      Change env op w o (Function.update (Function.update w.at a.slot none) a'.slot (some a'))
  | copied {u u' : User} (stored : w.at (Actor.user u).slot = some (.user u)) (role : o.role = .user)
      (may : op.May env (.user u)) (free : w.Free u'.username)
      (plain : op.isAdmin env.useAuth = false → u.admin = false → u'.admin = false) :
      Change env op w o (Function.update (Function.update w.at (.client, u.username) none) (.user, u'.username)
        (some (.user u')))
  | stripped {u : User} (stored : w.at (Actor.user u).slot = some (.user u)) (role : o.role = .user) :
      Change env op w o (Function.update w.at (.client, u.username) none)
  | created {a : Actor} (role : a.role = o.role) (free : w.Free a.name)
      (plain : op.isAdmin env.useAuth = false → a.admin = false) :
      Change env op w o (Function.update w.at a.slot (some a))

section

variable {w w' : World} {name : Text}

lemma World.at_withoutClient (w : World) (name : Text) :
    (w.withoutClient name).at = Function.update w.at (.client, name) none := by
  exact clientSide.at_update (v := none) fun _ => Shelf.find_remove

lemma World.free_of_get (hc : w.clients.get name = none) (hu : w.users.get name = none) : w.Free name := by
  intro role
  cases role with
  | client => exact congrArg (Option.map client) (Shelf.find_eq_none.mpr hc)
  | user => exact congrArg (Option.map user) (Shelf.find_eq_none.mpr hu)

variable {α : Type} {x : Handler α} {e : Refusal} {a : α}

lemma World.after_error (h : x w = .error e w') : w.after x = w' := by
  rw [after, h]

lemma World.after_ok (h : x w = .ok a w') : w.after x = w' := by
  rw [after, h]

lemma World.after_congr {y : Handler α} (h : x w = y w') : w.after x = w'.after y := by
  rw [after, h, after]

lemma World.after_bind_pure {β : Type} {b : β} : w.after (x >>= fun _ => pure b) = w.after x := by
  cases hx : x w with
  | ok a w₁ => rw [after_congr (run_bind_ok hx), after_ok hx]; rfl
  | error e w₁ => rw [after_error (run_bind_error hx), after_error hx]

end

section

variable {env : Env} {op : Actor} {data : JsonMap} {name : Text}

lemma allow_ok {r : Option Refusal} (h : allow r = .ok ()) : r = none := by
  cases r with
  | none => rfl
  | some e => cases h

lemma readBool_of_checkPermEdit {perm : Text} (h : checkPermEdit data perm = none) : readBool data perm = false := by
  unfold checkPermEdit at h
  split at h
  · cases h
  · next hb => simpa using hb

lemma Client.checkEdit_plain (h : Client.checkEdit env op data = .ok ()) (hop : op.isAdmin env.useAuth = false) :
    readBool data adminField = false := by
  unfold checkEdit at h
  rw [if_neg (by simp [hop])] at h
  generalize (if op.isValidator env.useAuth then none else checkPermEdit data validatorField) = verr at h
  dsimp only at h
  split at h
  · cases h
  · have hn := allow_ok h
    cases hp : checkPermEdit data adminField with
    | none => exact readBool_of_checkPermEdit hp
    | some e =>
      rw [hp] at hn
      cases hn

lemma Client.putChecks_ok {c : Client} (h : c.putChecks env op data = .ok name) :
    op.May env (.client c) ∧ (op.isAdmin env.useAuth = false → readBool data adminField = false) ∧
      lookupField data nameField = .str name := by
  obtain ⟨_, -, h₁⟩ := bind_eq_ok h
  obtain ⟨_, hm, h₂⟩ := bind_eq_ok h₁
  obtain ⟨_, he, hn⟩ := bind_eq_ok h₂
  refine ⟨?_, Client.checkEdit_plain he, validateAsString_ok hn⟩
  simpa [Actor.May] using require_ok hm

lemma User.putChecks_ok {u : User} (h : u.putChecks env op data = .ok name) :
    op.May env (.user u) ∧ (op.isAdmin env.useAuth = false → readBool data adminField = false) ∧
      lookupField data nameField = .str name := by
  obtain ⟨_, -, h₁⟩ := bind_eq_ok h
  obtain ⟨_, hm, h₂⟩ := bind_eq_ok h₁
  obtain ⟨_, he, hn⟩ := bind_eq_ok h₂
  refine ⟨by simpa [Actor.May] using require_ok hm, fun hop => ?_, validateAsString_ok hn⟩
  rw [User.checkEdit, if_neg (by simp [hop])] at he
  exact readBool_of_checkPermEdit (allow_ok he)

lemma createChecks_ok (h : createChecks env op data = .ok name) :
    (op.isAdmin env.useAuth = false → readBool data adminField = false) ∧ lookupField data nameField = .str name := by
  obtain ⟨_, -, h₁⟩ := bind_eq_ok h
  obtain ⟨_, -, h₂⟩ := bind_eq_ok h₁
  obtain ⟨_, he, hn⟩ := bind_eq_ok h₂
  constructor
  · intro hop
    rw [createEdit, if_neg (by simp [hop])] at he
    obtain ⟨_, ha, -⟩ := bind_eq_ok he
    exact readBool_of_checkPermEdit (allow_ok ha)
  · unfold newName at hn
    split at hn
    · next heq =>
      cases hn
      exact heq
    · cases hn

lemma Client.adminFlag_plain {c : Client} {lastAdmin ab : Bool} (h : c.adminFlag lastAdmin data = .ok ab)
    (hb : readBool data adminField = false) : ab = false := by
  unfold adminFlag at h
  unfold readBool at hb
  cases hl : data.lookup adminField with
  | none =>
    rw [hl] at h
    cases h
    rfl
  | some j =>
    rw [hl] at h hb
    cases hj : validateAsBool j with
    | error e =>
      simp only [hj] at h
      cases h
    | ok b =>
      obtain rfl := validateAsBool_ok hj
      simp only at hb
      subst hb
      simp only [hj] at h
      split at h
      · cases h
      · cases h
        rfl

end

section

variable {env : Env} {draw : Draw} {data : JsonMap} {lastAdmin : Bool} {e : Option Refusal}

lemma Client.draft_spec {c c' : Client} (h : c.draft env draw data lastAdmin = (c', e)) :
    c'.name = c.name ∧ (c'.admin = c.admin ∨ c.adminFlag lastAdmin data = .ok c'.admin) := by
  unfold draft at h
  cases hu : c.updateFromJSON lastAdmin data with
  | error e' =>
    simp only [hu] at h
    cases h
    exact ⟨rfl, .inl rfl⟩
  | ok d =>
    simp only [hu] at h
    have hd := Client.updateFromJSON_ok hu
    have hn : (clientKind.keyed env draw data d).1.name = d.name :=
      Kind.keyed_fixed (f := Client.name) (fun _ _ => rfl) d
    have ha : (clientKind.keyed env draw data d).1.admin = d.admin :=
      Kind.keyed_fixed (f := Client.admin) (fun _ _ => rfl) d
    rw [h] at hn ha
    simp only at hn ha
    exact ⟨hn.trans hd.name, .inr (by rw [ha]; exact hd.admin)⟩

end

lemma Change.congr {env : Env} {op : Actor} {w : World} {o : Operation} {D D' : Slot → Option Actor}
    (h : Change env op w o D) (hD : D' = D) : Change env op w o D' := hD ▸ h

structure Sound (env : Env) (op : Actor) (o : Operation) (w w' : World) : Prop where
  change : Change env op w o w'.at
  tidy : ∀ role, w.TidyIn role → w'.TidyIn role

section

variable {env : Env} {op : Actor} {o : Operation} {w w' : World} {α β : Type} {x : Handler α} {e : Refusal} {a : α}

lemma Sound.refl : Sound env op o w w := ⟨.same, fun _ hw => hw⟩

lemma Sound.of_error (h : x w = .error e w) : Sound env op o w (w.after x) := by
  rw [after_error h]
  exact .refl

lemma Sound.of_ok (h : x w = .ok a w') (hs : Sound env op o w w') : Sound env op o w (w.after x) := by
  rw [after_ok h]
  exact hs

lemma Sound.check {y : Except Refusal β} {f : β → Handler α} (h : ∀ b, y = .ok b → Sound env op o w (w.after (f b))) :
    Sound env op o w (w.after (check y >>= f)) := by
  cases y with
  | error e => exact .of_error rfl
  | ok b => exact h b rfl

lemma Sound.look {y : Handler β} {found : Option β} {f : β → Handler α} (hy : Looks y w found e)
    (h : ∀ b, found = some b → Sound env op o w (w.after (f b))) : Sound env op o w (w.after (y >>= f)) := by
  cases found with
  | none => exact .of_error (run_bind_error (hy.missing rfl))
  | some b =>
    rw [after_congr (run_bind_ok (hy.found rfl))]
    exact h b rfl

lemma Sound.get {f : World → Handler α} (h : Sound env op o w (w.after (f w))) :
    Sound env op o w (w.after (MonadState.get >>= f)) := h

end

namespace Side

variable {α : Type} (S : Side α) {env : Env} {op : Actor} {o : Operation} {w : World} {s : Shelf α} {n : Text}
  {h : Cell α} {a : α}

lemma sound (hc : Change env op w o (S.withShelf s w).at) (ht : s.Tidy S.name) :
    Sound env op o w (S.withShelf s w) := by
  refine ⟨hc, fun r hw => ?_⟩
  rw [S.tidyIn_withShelf]
  split
  · exact ht
  · exact hw

lemma role_actor (ho : S.role = o.role) (a : α) : (S.actor a).role = o.role :=
  (congrArg Prod.fst (S.slot_actor a)).trans ho

lemma created_sound (hw : (S.shelf w).Tidy S.name) (ho : S.role = o.role) (hf : (S.shelf w).get (S.name a) = none)
    (hp : op.isAdmin env.useAuth = false → (S.actor a).admin = false) :
    Sound env op o w (w.after (S.save env ((S.shelf w).fresh a))) := by
  rcases S.save_run env ((S.shelf w).fresh a) w with ⟨e, hs⟩ | ⟨hfr, hs⟩
  · exact .of_error hs
  · refine .of_ok hs (S.sound ?_ (hw.put_fresh env.mode a))
    have hn : (S.actor a).name = S.name a := congrArg Prod.snd (S.slot_actor a)
    refine (Change.created (S.role_actor ho a) (fun r => ?_) hp).congr ?_
    · rw [hn]
      by_cases hr : r = S.role
      · rw [hr, S.at_shelf, Shelf.find_eq_none.mpr hf]
        rfl
      · exact hfr r hr
    · rw [S.slot_actor]
      exact S.at_update (v := some a) fun _ => (Shelf.loose_fresh _ a).synced.find_put

variable (hw : (S.shelf w).Tidy S.name) (hget : (S.shelf w).get n = some h)
include hw hget

lemma removed_sound (ho : S.role = o.role) (hm : op.May env (S.actor h.val)) (hl : w.isLastAdmin (S.actor h.val) = false) :
    Sound env op o w (S.withShelf ((S.shelf w).remove (S.name h.val)) w) := by
  refine S.sound ((Change.removed (S.stored hw hget) (S.role_actor ho _) hm hl).congr ?_) (hw.remove _)
  rw [S.slot_actor]
  exact S.at_update (v := none) fun _ => Shelf.find_remove

lemma written (ho : S.role = o.role) (hm : op.May env (S.actor h.val)) (hn : S.name a = S.name h.val)
    (hk : w.isLastAdmin (S.actor h.val) = true → w.losesAdmin o = false → (S.actor a).admin = true)
    (hp : op.isAdmin env.useAuth = false → (S.actor h.val).admin = false → (S.actor a).admin = false) :
    Change env op w o (Function.update w.at (S.role, n) (some (S.actor a))) := by
  have hs : (S.actor h.val).slot = (S.role, n) := by rw [S.slot_actor, hw.named n h hget]
  rw [← hs]
  exact .written (S.stored hw hget) (S.role_actor ho _) hm (by rw [S.slot_actor, S.slot_actor, hn]) hk hp

variable (hn : S.name a = n) (hc : Change env op w o (Function.update w.at (S.role, n) (some (S.actor a))))
include hn hc

lemma leave_sound : Sound env op o w (S.leave env w h a) := by
  refine S.sound ?_ (hw.assign hget rfl hn)
  cases hm : env.mode with
  | copying => exact Change.same.congr (congrArg World.at (S.withShelf_shelf w))
  | sharing =>
    refine hc.congr (S.at_update (v := some a) fun k => (hw.find_assign hget rfl).trans ?_)
    simp

lemma saved_sound : Sound env op o w ((S.leave env w h a).after (S.save env ⟨h.id, a⟩)) := by
  rcases S.save_run env ⟨h.id, a⟩ (S.leave env w h a) with ⟨e, hs⟩ | ⟨-, hs⟩
  · rw [after_error hs]
    exact S.leave_sound hw hget hn hc
  · rw [after_ok hs, Kind.leave, S.shelf_withShelf, S.withShelf_withShelf, hn]
    exact S.sound (hc.congr (S.at_update (v := some a) fun k => hw.find_assign_put hget)) (hw.assign_put hget hn)

end Side

section

variable {env : Env} {op : Actor} {draw : Draw} {data : JsonMap} {w : World} {name newName : Text} {h : Cell Client}
  {c : Client} {e : Option Refusal}

section

variable (hw : w.clients.Tidy Client.name) (hget : w.clients.get name = some h)
  (hchk : h.val.putChecks env op data = .ok newName)
include hw hget hchk

lemma Client.written_of_draft (hd : h.val.draft env draw data (clientKind.isLastAdmin w h.val) = (c, e)) :
    Change env op w (.putClient name (.ok data)) (Function.update w.at (.client, name) (some (.client c))) := by
  obtain ⟨hm, hp, -⟩ := Client.putChecks_ok hchk
  obtain ⟨hn, ha⟩ := Client.draft_spec hd
  refine clientSide.written hw hget rfl hm hn ?_ ?_
  · intro hl hb
    have hs : h.val.admin = true := (Bool.and_eq_true_iff.mp hl).1
    rcases ha with hsm | hf
    · exact hsm.trans hs
    · refine Client.adminFlag_last hf hs hl ?_
      have han : (w.clients.find name).any (clientKind.isLastAdmin w) = true := by
        rw [Shelf.find_of_get hget]
        exact hl
      rw [losesAdmin, han, Bool.and_true] at hb
      rw [← Option.not_isNone, hb]
      rfl
  · intro hop hnt
    rcases ha with hsm | hf
    · exact hsm.trans hnt
    · exact Client.adminFlag_plain hf (hp hop)

lemma Client.renamed_sound (hne : name ≠ newName) (hrn : h.val.renameChecks w newName = .ok ()) :
    Sound env op (.putClient name (.ok data)) w (w.after (clientPut env op draw name (.ok data))) := by
  obtain ⟨hm, hp, -⟩ := Client.putChecks_ok hchk
  obtain ⟨-, hls, hu, hcl⟩ := Client.renameChecks_ok hrn
  have hk : h.val.name = name := hw.named name h hget
  have hsl : (client h.val).slot = (.client, name) := congrArg (Prod.mk Role.client) hk
  have hs : w.at (client h.val).slot = _ := clientSide.stored hw hget
  have hn : w.isLastAdmin (.client h.val) = false := Bool.eq_false_iff.mpr hls
  obtain ⟨json, hr⟩ := clientPut_renamed_run draw hw hget hchk hne hrn
  cases hd : (h.val.renamed newName).draft env draw data (clientKind.isLastAdmin (w.withoutClient name) h.val) with
  | mk c e =>
    rw [hd] at hr
    obtain ⟨hnm, ha⟩ := Client.draft_spec hd
    cases e with
    | some e =>
      rw [after_error hr, ← hk]
      exact clientSide.removed_sound hw hget rfl hm hn
    | none =>
      have hnw : c.name = newName := hnm
      have hf : (w.withoutClient name).users.get c.name = none := by rw [hnw]; exact hu
      have hsv : Client.save env ⟨h.id, c⟩ (w.withoutClient name) = _ := Client.save_free hf
      rw [after_ok hr, after_ok hsv]
      have hl : (w.clients.remove name).Loose ⟨h.id, c⟩ := hw.loose_remove hget rfl
      refine clientSide.sound ?_ ((hw.remove name).put_loose hl env.mode)
      have hc : Change env op w (.putClient name (.ok data)) _ :=
        .moved hs rfl hm hn (show (client c).role = (client h.val).role from rfl)
          (free_of_get (hnw.symm ▸ hcl : w.clients.get c.name = none) hf) fun hop hnt => ?_
      · rw [hsl] at hc
        refine hc.congr ?_
        rw [← at_withoutClient]
        exact clientSide.at_update (w := w.withoutClient name) (v := some c) fun _ => hl.synced.find_put
      · rcases ha with hsm | hfl
        · exact hsm.trans hnt
        · exact Client.adminFlag_plain hfl (hp hop)

end

lemma clientPut_sound (hw : w.clients.Tidy Client.name) (env : Env) (op : Actor) (draw : Draw) (name : Text) (body : Except Text JsonMap) :
    Sound env op (.putClient name body) w (w.after (clientPut env op draw name body)) := by
  obtain ⟨e, he⟩ | ⟨data, h, newName, rfl, hget, hchk, hrn⟩ := clientPutStart_cases env op name body w
  · rw [clientPut_eq]
    exact .of_error (run_bind_error he)
  by_cases hne : name = newName
  · subst hne
    obtain ⟨json, hr⟩ := clientPut_same_run draw hget hchk
    cases hd : h.val.draft env draw data (clientKind.isLastAdmin w h.val) with
    | mk c e =>
      rw [hd] at hr
      have hn : c.name = name := (Client.draft_spec hd).1.trans (hw.named name h hget)
      have hc := Client.written_of_draft hw hget hchk hd
      cases e with
      | some e =>
        rw [after_error hr]
        exact clientSide.leave_sound hw hget hn hc
      | none =>
        rw [after_ok hr]
        exact clientSide.saved_sound hw hget hn hc
  · exact Client.renamed_sound hw hget hchk hne (hrn hne)

end

section

variable {env : Env} {op : Actor} {draw : Draw} {data : JsonMap} {w : World} {name newName : Text} {h : Cell User}
  {u : User} {e : Option Refusal} {lastAdmin : Bool}

lemma User.draft_plain {v : User} (hd : v.draft env draw data lastAdmin = (u, e))
    (hb : readBool data adminField = false) (hn : v.admin = false) : u.admin = false := by
  rcases (User.draft_spec hd).2 with hs | ⟨hbd, -⟩
  · exact hs.trans hn
  · rw [readBool, hbd] at hb
    exact hb

section

variable (hw : w.users.Tidy User.username) (hget : w.users.get name = some h)
  (hchk : h.val.putChecks env op data = .ok newName)
include hw hget hchk

lemma User.written_of_draft (hd : h.val.draft env draw data (userKind.isLastAdmin w h.val) = (u, e)) :
    Change env op w (.putUser name (.ok data)) (Function.update w.at (.user, name) (some (.user u))) := by
  obtain ⟨hm, hp, -⟩ := User.putChecks_ok hchk
  obtain ⟨hn, ha⟩ := User.draft_spec hd
  refine userSide.written hw hget rfl hm hn ?_ ?_
  · intro hl _
    have hs : h.val.admin = true := (Bool.and_eq_true_iff.mp hl).1
    rcases ha with hsm | ⟨-, hk⟩
    · exact hsm.trans hs
    · exact hk hs hl
  · exact fun hop hn => User.draft_plain hd (hp hop) hn

lemma User.renamed_sound (hm : env.mode = .copying) (hne : name ≠ newName)
    (hrn : h.val.renameChecks w newName = .ok ()) :
    Sound env op (.putUser name (.ok data)) w (w.after (userPut env op draw name (.ok data))) := by
  obtain ⟨hmy, hp, -⟩ := User.putChecks_ok hchk
  obtain ⟨-, -, hcl, hu⟩ := User.renameChecks_ok hrn
  have hs := userSide.stored hw hget
  have hl : ∀ u, userKind.leave env (w.withoutClient h.val.username) h u = w.withoutClient h.val.username := by
    intro u
    rw [Kind.leave, hm]
    rfl
  obtain ⟨json, hr⟩ := userPut_renamed_run draw hget hchk hne hrn
  simp only [hl] at hr
  cases hd : (h.val.renamed newName).draft env draw data (userKind.isLastAdmin w h.val) with
  | mk u e =>
    rw [hd] at hr
    cases e with
    | some e =>
      rw [after_error hr]
      refine ⟨(Change.stripped hs rfl).congr (at_withoutClient w _), fun r hr => ?_⟩
      cases r with
      | client => exact hr.remove _
      | user => exact hw
    | none =>
      have hn : u.username = newName := (User.draft_spec hd).1
      have hf : (w.withoutClient h.val.username).clients.get u.username = none :=
        hn.symm ▸ Shelf.get_remove_of_none hcl
      have hsv : User.save env ⟨h.id, u⟩ (w.withoutClient h.val.username) = _ := User.save_free hf
      rw [after_ok (hr.trans (run_bind_ok hsv)), hm]
      refine ⟨?_, fun r hr => ?_⟩
      rotate_left
      · cases r with
        | client => exact hr.remove _
        | user => exact hw.put_copying ⟨h.id, u⟩
      have hch : Change env op w (.putUser name (.ok data)) _ :=
        .copied hs rfl hmy
          (show w.Free u.username from free_of_get (hn.symm ▸ hcl) (hn.symm ▸ hu)) fun hop hnt => ?_
      · refine hch.congr ?_
        rw [← at_withoutClient]
        exact userSide.at_update (w := w.withoutClient h.val.username) (v := some u) fun _ => Shelf.find_put_copying
      · exact User.draft_plain hd (hp hop) hnt

end

lemma userPut_sound (hw : w.users.Tidy User.username) (env : Env) (op : Actor) (draw : Draw) (name : Text) (body : Except Text JsonMap)
    (hm : env.mode = .copying ∨ (Operation.putUser name body).renamesUser = false) :
    Sound env op (.putUser name body) w (w.after (userPut env op draw name body)) := by
  obtain ⟨e, he⟩ | ⟨data, h, newName, rfl, hget, hchk, hrn⟩ := userPutStart_cases env op name body w
  · rw [userPut_eq]
    exact .of_error (run_bind_error he)
  by_cases hne : name = newName
  · subst hne
    obtain ⟨json, hr⟩ := userPut_same_run draw hget hchk
    cases hd : h.val.draft env draw data (userKind.isLastAdmin w h.val) with
    | mk u e =>
      rw [hd] at hr
      have hn : u.username = name := (User.draft_spec hd).1.trans (hw.named name h hget)
      have hc := User.written_of_draft hw hget hchk hd
      cases e with
      | some e =>
        rw [after_error hr]
        exact userSide.leave_sound hw hget hn hc
      | none =>
        have ha : w.after (userPut env op draw name (.ok data)) =
            (userKind.leave env w h u).after (User.save env ⟨h.id, u⟩) := by
          simp only at hr
          rw [after_congr hr, after_bind_pure]
        rw [ha]
        exact userSide.saved_sound hw hget hn hc
  · have hc : env.mode = .copying := by
      refine hm.resolve_right ?_
      have hb := (User.putChecks_ok hchk).2.2
      simp [Operation.renamesUser, hb, Ne.symm hne]
    exact User.renamed_sound hw hget hchk hc hne (hrn hne)

end

section

variable {w : World}

lemma clientDelete_sound (hw : w.clients.Tidy Client.name) (env : Env) (op : Actor) (name : Text) :
    Sound env op (.deleteClient name) w (w.after (clientDelete env op name)) := by
  refine .look (looks_getClient w name) fun h hget => .check fun _ hm => .get (.check fun _ hl => .of_ok rfl ?_)
  exact clientSide.removed_sound hw hget rfl (Bool.or_eq_true_iff.mp (require_ok hm))
    (Bool.eq_false_iff.mpr (require_ok hl))

lemma userDelete_sound (hw : w.users.Tidy User.username) (env : Env) (op : Actor) (name : Text) :
    Sound env op (.deleteUser name) w (w.after (userDelete env op name)) := by
  refine .look (looks_getUser w name) fun h hget => .check fun _ hm => .get (.check fun _ hl => .of_ok rfl ?_)
  exact userSide.removed_sound hw hget rfl (Bool.or_eq_true_iff.mp (require_ok hm))
    (Bool.eq_false_iff.mpr (require_ok hl))

end

section

variable {env : Env} {op : Actor} {draw : Draw} {data : JsonMap} {w : World} {name : Text}

lemma Client.newFromJSON_ok {c : Client} (h : Client.newFromJSON w name data = .ok c) :
    w.clients.get name = none ∧ c.name = name ∧ ∃ lastAdmin, (Client.new name).adminFlag lastAdmin data = .ok c.admin := by
  obtain ⟨_, hn, h₁⟩ := bind_eq_ok h
  obtain ⟨_, -, h₂⟩ := bind_eq_ok h₁
  have hu := Client.updateFromJSON_ok h₂
  exact ⟨require_ok hn, hu.name, _, hu.admin⟩

lemma User.newFromJSON_ok {u : User} (h : User.newFromJSON env draw w name data = .ok u) :
    w.users.get name = none ∧ u.username = name ∧ (u.admin = false ∨ data.lookup adminField = some (.bool u.admin)) := by
  obtain ⟨_, hn, h₁⟩ := bind_eq_ok h
  obtain ⟨_, -, h₂⟩ := bind_eq_ok h₁
  obtain ⟨salt, -, h₃⟩ := bind_eq_ok h₂
  obtain ⟨_, -, h₄⟩ := bind_eq_ok h₃
  have hu := User.updateFromJSON_updated env.crypto (userKind.isLastAdmin w (User.new name salt)) (User.new name salt) data
  cases hd : (User.new name salt).updateFromJSON env.crypto (userKind.isLastAdmin w (User.new name salt)) data with
  | mk v e =>
    rw [hd] at h₄ hu
    cases e with
    | some e => cases h₄
    | none =>
      cases h₄
      refine ⟨require_ok hn, congrArg User.username hu.rest, ?_⟩
      rcases hu.admin with hs | ⟨hb, -⟩
      · exact .inl hs
      · exact .inr hb

lemma clientCreate_sound (hw : w.clients.Tidy Client.name) (env : Env) (op : Actor) (draw : Draw) (body : Except Text JsonMap) :
    Sound env op (.createClient body) w (w.after (clientCreate env op draw body)) := by
  refine .check fun data hd => .check fun name hchk => .get (.check fun c hnw => .check fun p hk => ?_)
  obtain ⟨c', json⟩ := p
  obtain ⟨hf, hn, last, hfl⟩ := Client.newFromJSON_ok hnw
  have hnm : c'.name = name := (Kind.newKey_fixed (f := Client.name) (fun _ _ => rfl) hk).trans hn
  have ha : c'.admin = c.admin := Kind.newKey_fixed (f := Client.admin) (fun _ _ => rfl) hk
  refine .get ?_
  rw [after_bind_pure]
  refine clientSide.created_sound hw rfl (hnm.symm ▸ hf : w.clients.get c'.name = none) fun hop => ?_
  exact ha.trans (Client.adminFlag_plain hfl ((createChecks_ok hchk).1 hop))

lemma userCreate_sound (hw : w.users.Tidy User.username) (env : Env) (op : Actor) (draw : Draw) (body : Except Text JsonMap) :
    Sound env op (.createUser body) w (w.after (userCreate env op draw body)) := by
  refine .check fun data hd => .check fun name hchk => .get (.check fun u hnw => .check fun p hk => ?_)
  obtain ⟨u', json⟩ := p
  obtain ⟨hfr, hn, hfl⟩ := User.newFromJSON_ok hnw
  have hnm : u'.username = name := (Kind.newKey_fixed (f := User.username) (fun _ _ => rfl) hk).trans hn
  have ha : u'.admin = u.admin := Kind.newKey_fixed (f := User.admin) (fun _ _ => rfl) hk
  refine .of_ok (run_bind_ok (quietly_run _ _)) ?_
  refine userSide.created_sound hw rfl (hnm.symm ▸ hfr : w.users.get u'.username = none) fun hop => ?_
  have hp := (createChecks_ok hchk).1 hop
  rcases hfl with hf | hb
  · exact ha.trans hf
  · rw [readBool, hb] at hp
    exact ha.trans hp

end

section

variable {env : Env} {w : World}

lemma handle_sound (op : Actor) (draw : Draw) (o : Operation) (hw : w.TidyIn o.role)
    (hm : env.mode = .copying ∨ o.renamesUser = false) : Sound env op o w (w.after (handle env op draw o)) := by
  cases o with
  | listClients => exact .of_ok rfl .refl
  | createClient body => exact clientCreate_sound hw env op draw body
  | getClient name => exact .look (looks_getClient w name) fun _ _ => .check fun _ _ => .of_ok rfl .refl
  | putClient name body => exact clientPut_sound hw env op draw name body
  | deleteClient name => exact clientDelete_sound hw env op name
  | listUsers => exact .of_ok rfl .refl
  | createUser body => exact userCreate_sound hw env op draw body
  | getUser name => exact .look (looks_getUser w name) fun _ _ => .check fun _ _ => .of_ok rfl .refl
  | putUser name body => exact userPut_sound hw env op draw name body hm
  | deleteUser name => exact userDelete_sound hw env op name

def Env.requester (env : Env) (r : Request) : Text := if env.useAuth then r.user else adminField

lemma looks_getReqUser (env : Env) (r : Request) (w : World) :
    Looks (getReqUser env r.user) w (w.actor (env.requester r)) (noSuchActor (env.requester r)) := by
  refine (run_bind_ok (x := get) rfl).trans ?_
  unfold Env.requester
  cases w.actor (if env.useAuth then r.user else adminField) <;> rfl

lemma serve_sound {r : Request} (hw : w.TidyIn r.operation.role)
    (hm : env.mode = .copying ∨ r.operation.renamesUser = false) :
    w.after (serve env r) = w ∨ ∃ op, w.actor (env.requester r) = some op ∧
      Sound env op r.operation w (w.after (serve env r)) := by
  cases hop : w.actor (env.requester r) with
  | none => exact .inl (after_error (run_bind_error ((looks_getReqUser env r w).missing hop)))
  | some op =>
    have hs : w.after (serve env r) = _ := after_congr (run_bind_ok ((looks_getReqUser env r w).found hop))
    rw [hs]
    exact .inr ⟨op, rfl, handle_sound op r.draw r.operation hw hm⟩

end

end Goiardi.Actors
