import Goiardi.Actors.Handlers
import Goiardi.Base.Invariants

/-! What a handler leaves in the store, whether it answers or refuses. -/

namespace Goiardi.Actors

open Validation

section

variable {α β : Type} {x : Except Refusal α} {f : α → Handler β} {w : World} {a : α} {e : Refusal}

lemma check_bind_ok (h : x = .ok a) : (check x >>= f) w = f a w := by
  subst h
  rfl

lemma check_bind_error (h : x = .error e) : (check x >>= f) w = .error e w := by
  subst h
  rfl

lemma quietly_run (x : Handler Unit) (w : World) : quietly x w = .ok () (w.after x) := by
  unfold quietly World.after
  cases x w <;> rfl

end

namespace Kind

variable {α : Type} (kind : Kind α) (env : Env) (draw : Draw) (data : JsonMap)

def keyed (a : α) : α × Option Refusal :=
  match bodyKey env.crypto data with
  | .error e => (a, some e)
  | .ok key =>
    let a := key.elim a fun pk => kind.setPublicKey env pk a
    match bodyPair draw data with
    | .error e => (a, some e)
    | .ok pair => (pair.elim a fun p => kind.setPublicKey env p.2 a, none)

def leave (w : World) (h : Cell α) (a : α) : World := kind.withShelf ((kind.shelf w).assign env.mode h a) w

variable {kind env} {w : World} {h : Cell α} {a b : α}

lemma assign_run : kind.assign env h a w = .ok ⟨h.id, a⟩ (kind.leave env w h a) := rfl

lemma leave_leave (v : α) : kind.leave env (kind.leave env w h a) ⟨h.id, v⟩ b = kind.leave env w h b := by
  rw [leave, leave, kind.shelf_withShelf, kind.withShelf_withShelf, Shelf.assign_assign, leave]

lemma leave_of_synced (hs : (kind.shelf w).Synced h) : kind.leave env w h h.val = w := by
  rw [leave, hs.assign_eq, kind.withShelf_shelf]

lemma putPublicKey_run (hs : kind.leave env w h h.val = w) (json : JsonMap) :
    ∃ json', kind.putPublicKey env data h json w =
      match bodyKey env.crypto data with
      | .error e => .error e w
      | .ok key =>
        let a := key.elim h.val fun pk => kind.setPublicKey env pk h.val
        .ok (⟨h.id, a⟩, json') (kind.leave env w h a) := by
  cases hk : bodyKey env.crypto data with
  | error e => exact ⟨json, check_bind_error hk⟩
  | ok key =>
    cases key with
    | none => exact ⟨json, (check_bind_ok hk).trans (congrArg (EStateM.Result.ok _) hs.symm)⟩
    | some pk => exact ⟨_, check_bind_ok hk⟩

lemma putPrivateKey_run (hs : kind.leave env w h h.val = w) (json : JsonMap) :
    ∃ json', kind.putPrivateKey env draw data h json w =
      match bodyPair draw data with
      | .error e => .error e w
      | .ok pair =>
        let a := pair.elim h.val fun p => kind.setPublicKey env p.2 h.val
        .ok (⟨h.id, a⟩, json') (kind.leave env w h a) := by
  cases hp : bodyPair draw data with
  | error e => exact ⟨json, check_bind_error hp⟩
  | ok pair =>
    cases pair with
    | none => exact ⟨json, (check_bind_ok hp).trans (congrArg (EStateM.Result.ok _) hs.symm)⟩
    | some p => exact ⟨_, check_bind_ok hp⟩

lemma putKeys_run (hs : kind.leave env w h h.val = w) (json : JsonMap) :
    ∃ json', kind.putKeys env draw data h json w =
      match kind.keyed env draw data h.val with
      | (a, some e) => .error e (kind.leave env w h a)
      | (a, none) => .ok (⟨h.id, a⟩, json') (kind.leave env w h a) := by
  obtain ⟨json₁, h₁⟩ := putPublicKey_run data hs json
  cases hk : bodyKey env.crypto data with
  | error e =>
    refine ⟨json, ?_⟩
    simp only [hk] at h₁
    simp only [keyed, hk, hs]
    exact run_bind_error h₁
  | ok key =>
    simp only [hk] at h₁
    simp only [keyed, hk]
    generalize ha : (key.elim h.val fun pk => kind.setPublicKey env pk h.val) = a at h₁ ⊢
    obtain ⟨json₂, h₂⟩ := putPrivateKey_run draw data (leave_leave a) json₁
    refine ⟨json₂, (run_bind_ok h₁).trans (h₂.trans ?_)⟩
    cases bodyPair draw data with
    | error e => rfl
    | ok pair =>
      simp only [leave_leave]

end Kind

section

variable {α : Type} {kind : Kind α} {P : α → Prop} {env : Env} {draw : Draw} {data json : JsonMap} {a a' : α}

lemma Kind.setPublicKey_induct (hP : ∀ pk b, P b → P (kind.withKey pk b)) (ha : P a) (pk : Text) :
    P (kind.setPublicKey env pk a) := by
  unfold setPublicKey
  split
  · exact hP pk a ha
  · exact ha

lemma Kind.keyed_induct (hP : ∀ pk b, P b → P (kind.withKey pk b)) (ha : P a) : P (kind.keyed env draw data a).1 := by
  unfold keyed
  cases bodyKey env.crypto data with
  | error e => exact ha
  | ok key =>
    have hk : P (key.elim a fun pk => kind.setPublicKey env pk a) := by
      cases key with
      | none => exact ha
      | some pk => exact setPublicKey_induct hP ha pk
    cases bodyPair draw data with
    | error e => exact hk
    | ok pair =>
      cases pair with
      | none => exact hk
      | some p => exact setPublicKey_induct hP hk p.2

lemma Kind.newKey_induct (hP : ∀ pk b, P b → P (kind.withKey pk b)) (ha : P a)
    (h : kind.newKey env draw data a = .ok (a', json)) : P a' := by
  unfold newKey at h
  split at h
  iterate 3
    split at h <;> cases h
    exact setPublicKey_induct hP ha _
  cases h

end

section

variable (env : Env) (draw : Draw) (data : JsonMap) (lastAdmin : Bool)

def Client.draft (c : Client) : Client × Option Refusal :=
  match c.updateFromJSON lastAdmin data with
  | .error e => (c, some e)
  | .ok c => clientKind.keyed env draw data c

def User.draft (u : User) : User × Option Refusal :=
  match u.updateFromJSON env.crypto lastAdmin data with
  | (u, some e) => (u, some e)
  | (u, none) => userKind.keyed env draw data u

variable {env} {w : World}

lemma Client.revise_run {h : Cell Client} (hs : clientKind.leave env w h h.val = w) (json : JsonMap) :
    ∃ json', Client.revise env draw data h json w =
      match h.val.draft env draw data (clientKind.isLastAdmin w h.val) with
      | (c, some e) => .error e (clientKind.leave env w h c)
      | (c, none) => .ok json' ((clientKind.leave env w h c).after (Client.save env ⟨h.id, c⟩)) := by
  cases hu : h.val.updateFromJSON (clientKind.isLastAdmin w h.val) data with
  | error e =>
    refine ⟨json, ?_⟩
    simp only [draft, hu, hs]
    exact check_bind_error hu
  | ok c =>
    obtain ⟨json', hk⟩ := Kind.putKeys_run draw data (Kind.leave_leave c) json
    refine ⟨json', (check_bind_ok hu).trans ((run_bind_ok Kind.assign_run).trans ?_)⟩
    simp only [draft, hu]
    simp only [Kind.leave_leave] at hk
    cases hd : clientKind.keyed env draw data c with
    | mk c' e =>
      rw [hd] at hk
      cases e with
      | some e => exact run_bind_error hk
      | none =>
        exact (run_bind_ok hk).trans (run_bind_ok (quietly_run _ _))

lemma User.revise_run {h : Cell User} (json : JsonMap) :
    ∃ json', User.revise env draw data h json w =
      match h.val.draft env draw data (userKind.isLastAdmin w h.val) with
      | (u, some e) => .error e (userKind.leave env w h u)
      | (u, none) => (User.save env ⟨h.id, u⟩ >>= fun _ => pure json') (userKind.leave env w h u) := by
  cases hu : h.val.updateFromJSON env.crypto (userKind.isLastAdmin w h.val) data with
  | mk u e =>
    have hs : User.revise env draw data h json w = (check (allow e) >>= fun _ =>
        userKind.putKeys env draw data ⟨h.id, u⟩ json >>= fun p => User.save env p.1 >>= fun _ => pure p.2)
          (userKind.leave env w h u) := by
      refine (run_bind_ok (x := get) rfl).trans ?_
      rw [hu]
      exact run_bind_ok Kind.assign_run
    obtain ⟨json', hk⟩ := Kind.putKeys_run draw data (Kind.leave_leave (w := w) (h := h) u) json
    simp only [Kind.leave_leave] at hk
    refine ⟨json', hs.trans ?_⟩
    simp only [draft, hu]
    cases e with
    | some e => exact check_bind_error rfl
    | none =>
      refine (check_bind_ok rfl).trans ?_
      cases hd : userKind.keyed env draw data u with
      | mk u' e =>
        rw [hd] at hk
        simp only [hd]
        cases e with
        | some e => exact run_bind_error hk
        | none => exact run_bind_ok hk

def Client.renamed (c : Client) (newName : Text) : Client := { c with name := newName }

def User.renamed (u : User) (newName : Text) : User := { u with username := newName }

end

def World.withoutClient (w : World) (name : Text) : World := { w with clients := w.clients.remove name }

section

variable {α : Type} {look : Handler (Cell α)} {checks : Cell α → JsonMap → Except Refusal Text}
  {rename : Cell α → Text → Handler (Cell α)} {json : Cell α → JsonMap} {h h' : Cell α} {data : JsonMap}
  {w w' : World} {name newName : Text}

/-- The `PUT` of an actor as far as a rename, which writes the status 201. -/
def putStart (look : Handler (Cell α)) (checks : Cell α → JsonMap → Except Refusal Text)
    (rename : Cell α → Text → Handler (Cell α)) (json : Cell α → JsonMap) (name : Text)
    (body : Except Text JsonMap) : Handler ((JsonMap × Cell α × JsonMap) × Bool) := do
  let data ← check (body.mapError (⟨·, 400⟩))
  let h ← look
  let jsonName ← check (checks h data)
  let h' ← (if name ≠ jsonName then rename h jsonName else pure h : Handler (Cell α))
  return ((data, h', json h), name ≠ jsonName)

lemma putStart_checked (hl : look w = .ok h w) (hc : checks h data = .ok newName) :
    putStart look checks rename json name (.ok data) w =
      ((if name ≠ newName then rename h newName else pure h) >>= fun h' =>
        pure ((data, h', json h), decide (name ≠ newName))) w :=
  (check_bind_ok rfl).trans ((run_bind_ok hl).trans (check_bind_ok hc))

lemma putStart_same (hl : look w = .ok h w) (hc : checks h data = .ok name) :
    putStart look checks rename json name (.ok data) w = .ok ((data, h, json h), false) w := by
  refine (putStart_checked hl hc).trans ?_
  rw [if_neg (not_not.mpr rfl), decide_eq_false (not_not.mpr rfl)]
  exact run_bind_ok rfl

lemma putStart_renamed (hl : look w = .ok h w) (hc : checks h data = .ok newName) (hne : name ≠ newName)
    (hr : rename h newName w = .ok h' w') :
    putStart look checks rename json name (.ok data) w = .ok ((data, h', json h), true) w' := by
  refine (putStart_checked hl hc).trans ?_
  rw [if_pos hne, decide_eq_true hne]
  exact run_bind_ok hr

lemma putStart_cases {o : Option (Cell α)} {e : Refusal} {renameChecks : Cell α → Text → Except Refusal Unit}
    (hl : Looks look w o e) (hr : ∀ h n e, renameChecks h n = .error e → rename h n w = .error e w)
    (body : Except Text JsonMap) :
    (∃ e, putStart look checks rename json name body w = .error e w) ∨ ∃ data h newName, body = .ok data ∧
      o = some h ∧ checks h data = .ok newName ∧ (name ≠ newName → renameChecks h newName = .ok ()) := by
  cases body with
  | error t => exact .inl ⟨_, check_bind_error rfl⟩
  | ok data =>
    cases ho : o with
    | none => exact .inl ⟨_, (check_bind_ok rfl).trans (run_bind_error (hl.missing ho))⟩
    | some h =>
      have hf := hl.found ho
      cases hc : checks h data with
      | error e => exact .inl ⟨e, (check_bind_ok rfl).trans ((run_bind_ok hf).trans (check_bind_error hc))⟩
      | ok newName =>
        by_cases hne : name = newName
        · exact .inr ⟨data, h, newName, rfl, rfl, hc, fun h => absurd hne h⟩
        · cases hrn : renameChecks h newName with
          | error e =>
            refine .inl ⟨e, (putStart_checked hf hc).trans ?_⟩
            rw [if_pos hne]
            exact run_bind_error (hr h newName e hrn)
          | ok _ => exact .inr ⟨data, h, newName, rfl, rfl, hc, fun _ => hrn⟩

end

section

variable (env : Env) (op : Actor)

/-- The `PUT` of a client as far as a rename, which writes the status 201. -/
def clientPutStart (clientName : Text) (body : Except Text JsonMap) :
    Handler ((JsonMap × Cell Client × JsonMap) × Bool) := do
  let data ← check (body.mapError (⟨·, 400⟩))
  let h ← getClient clientName
  let jsonName ← check (h.val.putChecks env op data)
  let json := h.val.toJSON
  let h ← (if clientName ≠ jsonName then Client.rename env h jsonName else pure h : Handler (Cell Client))
  return ((data, h, json), clientName ≠ jsonName)

def userPutStart (userName : Text) (body : Except Text JsonMap) :
    Handler ((JsonMap × Cell User × JsonMap) × Bool) := do
  let data ← check (body.mapError (⟨·, 400⟩))
  let h ← getUser userName
  let jsonName ← check (h.val.putChecks env op data)
  let json := h.val.toJSON.filter fun p => p.1 ≠ publicKeyField
  let h ← (if userName ≠ jsonName then User.rename env h jsonName else pure h : Handler (Cell User))
  return ((data, h, json), userName ≠ jsonName)

lemma clientPut_eq (draw : Draw) (clientName : Text) (body : Except Text JsonMap) :
    clientPut env op draw clientName body =
      clientPutStart env op clientName body >>= fun p => Client.revise env draw p.1.1 p.1.2.1 p.1.2.2 := by
  simp only [clientPut, clientPutStart, bind_assoc, pure_bind]

lemma userPut_eq (draw : Draw) (userName : Text) (body : Except Text JsonMap) : userPut env op draw userName body =
      userPutStart env op userName body >>= fun p => User.revise env draw p.1.1 p.1.2.1 p.1.2.2 := by
  simp only [userPut, userPutStart, bind_assoc, pure_bind]

end

section

variable {env : Env} {op : Actor} (draw : Draw) {data : JsonMap} {w : World} {name newName : Text} {e : Refusal}

lemma looks_getClient (w : World) (name : Text) :
    Looks (getClient name) w (w.clients.get name) (clientNotFound name) := by
  refine (run_bind_ok (x := get) rfl).trans ?_
  cases w.clients.get name <;> rfl

lemma looks_getUser (w : World) (name : Text) : Looks (getUser name) w (w.users.get name) (userNotFound name) := by
  refine (run_bind_ok (x := get) rfl).trans ?_
  cases w.users.get name <;> rfl

section

variable {h : Cell Client}

section

variable (hget : w.clients.get name = some h)
include hget

lemma clientPutStart_same (hc : h.val.putChecks env op data = .ok name) :
    clientPutStart env op name (.ok data) w = .ok ((data, h, h.val.toJSON), false) w :=
  putStart_same ((looks_getClient w name).found hget) hc

lemma clientPutStart_renamed (hc : h.val.putChecks env op data = .ok newName)
    (hne : name ≠ newName) (hr : h.val.renameChecks w newName = .ok ()) :
    clientPutStart env op name (.ok data) w = .ok ((data, ⟨h.id, h.val.renamed newName⟩, h.val.toJSON), true)
      (clientKind.leave env (w.withoutClient h.val.name) h (h.val.renamed newName)) :=
  putStart_renamed ((looks_getClient w name).found hget) hc hne (check_bind_ok hr)

lemma clientPut_same_run (hc : h.val.putChecks env op data = .ok name) :
    ∃ json, clientPut env op draw name (.ok data) w =
      match h.val.draft env draw data (clientKind.isLastAdmin w h.val) with
      | (c, some e) => .error e (clientKind.leave env w h c)
      | (c, none) => .ok json ((clientKind.leave env w h c).after (Client.save env ⟨h.id, c⟩)) := by
  obtain ⟨json, hr⟩ := Client.revise_run draw data (Kind.leave_of_synced (Shelf.synced_get hget)) h.val.toJSON
  rw [clientPut_eq]
  exact ⟨json, (run_bind_ok (clientPutStart_same hget hc)).trans hr⟩

end

lemma clientPutStart_cases (env : Env) (op : Actor) (name : Text) (body : Except Text JsonMap) (w : World) :
    (∃ e, clientPutStart env op name body w = .error e w) ∨ ∃ data h newName, body = .ok data ∧
      w.clients.get name = some h ∧ h.val.putChecks env op data = .ok newName ∧
        (name ≠ newName → h.val.renameChecks w newName = .ok ()) := by
  refine putStart_cases (looks_getClient w name) (fun _ _ _ hr => ?_) body
  exact check_bind_error hr

lemma Client.renameChecks_ok (hr : h.val.renameChecks w newName = .ok ()) :
    validateName newName ∧ ¬ clientKind.isLastAdmin w h.val ∧ w.users.get newName = none ∧
      w.clients.get newName = none := by
  obtain ⟨_, h₁, hr⟩ := bind_eq_ok hr
  obtain ⟨_, h₂, hr⟩ := bind_eq_ok hr
  obtain ⟨_, h₃, h₄⟩ := bind_eq_ok hr
  exact ⟨require_ok h₁, require_ok h₂, require_ok h₃, require_ok h₄⟩

lemma Client.leave_withoutClient (env : Env) (hw : w.clients.Tidy Client.name) (hget : w.clients.get name = some h)
    {h' : Cell Client} (hid : h'.id = h.id) (c : Client) :
    clientKind.leave env (w.withoutClient name) h' c = w.withoutClient name := by
  have hl : (w.clients.remove name).Loose h' := hw.loose_remove hget hid
  exact congrArg (fun s => { w with clients := s }) hl.assign_eq

lemma clientPut_renamed_run (hw : w.clients.Tidy Client.name) (hget : w.clients.get name = some h)
    (hc : h.val.putChecks env op data = .ok newName) (hne : name ≠ newName)
    (hrn : h.val.renameChecks w newName = .ok ()) :
    ∃ json, clientPut env op draw name (.ok data) w =
      match (h.val.renamed newName).draft env draw data (clientKind.isLastAdmin (w.withoutClient name) h.val) with
      | (_, some e) => .error e (w.withoutClient name)
      | (c, none) => .ok json ((w.withoutClient name).after (Client.save env ⟨h.id, c⟩)) := by
  have hn : h.val.name = name := hw.named name h hget
  have hl := fun (h' : Cell Client) (hid : h'.id = h.id) (c : Client) =>
    Client.leave_withoutClient env hw hget hid c
  have hp := clientPutStart_renamed hget hc hne hrn
  rw [hn, hl h rfl] at hp
  obtain ⟨json, hr⟩ := Client.revise_run draw data (hl ⟨h.id, h.val.renamed newName⟩ rfl _) h.val.toJSON
  simp only [hl] at hr
  rw [clientPut_eq]
  exact ⟨json, (run_bind_ok hp).trans hr⟩

lemma Client.save_taken (hc : w.users.get h.val.name ≠ none) :
    Client.save env h w = .error (userConflict h.val.name) w := check_bind_error (if_neg hc)

lemma Client.save_free (hc : w.users.get h.val.name = none) :
    Client.save env h w = .ok () { w with clients := w.clients.put env.mode h.val.name h } := check_bind_ok (if_pos hc)

end

section

variable {h : Cell User}

section

variable (hget : w.users.get name = some h)
include hget

lemma userPutStart_same (hc : h.val.putChecks env op data = .ok name) : userPutStart env op name (.ok data) w =
      .ok ((data, h, h.val.toJSON.filter fun p => p.1 ≠ publicKeyField), false) w :=
  putStart_same ((looks_getUser w name).found hget) hc

lemma userPutStart_renamed (hc : h.val.putChecks env op data = .ok newName)
    (hne : name ≠ newName) (hr : h.val.renameChecks w newName = .ok ()) : userPutStart env op name (.ok data) w =
      .ok ((data, ⟨h.id, h.val.renamed newName⟩, h.val.toJSON.filter fun p => p.1 ≠ publicKeyField), true)
        (userKind.leave env (w.withoutClient h.val.username) h (h.val.renamed newName)) :=
  putStart_renamed ((looks_getUser w name).found hget) hc hne (check_bind_ok hr)

lemma userPut_same_run (hc : h.val.putChecks env op data = .ok name) :
    ∃ json, userPut env op draw name (.ok data) w =
      match h.val.draft env draw data (userKind.isLastAdmin w h.val) with
      | (u, some e) => .error e (userKind.leave env w h u)
      | (u, none) => (User.save env ⟨h.id, u⟩ >>= fun _ => pure json) (userKind.leave env w h u) := by
  obtain ⟨json, hr⟩ := User.revise_run draw data _
  rw [userPut_eq]
  exact ⟨json, (run_bind_ok (userPutStart_same hget hc)).trans hr⟩

end

lemma userPutStart_cases (env : Env) (op : Actor) (name : Text) (body : Except Text JsonMap) (w : World) :
    (∃ e, userPutStart env op name body w = .error e w) ∨ ∃ data h newName, body = .ok data ∧
      w.users.get name = some h ∧ h.val.putChecks env op data = .ok newName ∧
        (name ≠ newName → h.val.renameChecks w newName = .ok ()) := by
  refine putStart_cases (looks_getUser w name) (fun _ _ _ hr => ?_) body
  exact check_bind_error hr

lemma User.renameChecks_ok (hr : h.val.renameChecks w newName = .ok ()) :
    validateUserName newName ∧ ¬ userKind.isLastAdmin w h.val ∧ w.clients.get newName = none ∧
      w.users.get newName = none := by
  obtain ⟨_, h₁, hr⟩ := bind_eq_ok hr
  obtain ⟨_, h₂, hr⟩ := bind_eq_ok hr
  obtain ⟨_, h₃, h₄⟩ := bind_eq_ok hr
  exact ⟨require_ok h₁, require_ok h₂, require_ok h₃, require_ok h₄⟩

lemma User.isLastAdmin_leave (hget : w.users.get name = some h) (newName old : Text) :
    userKind.isLastAdmin (userKind.leave env (w.withoutClient old) h (h.val.renamed newName)) (h.val.renamed newName) =
      userKind.isLastAdmin w h.val := by
  have hc : (w.users.assign env.mode h (h.val.renamed newName)).count User.admin = w.users.count User.admin :=
    Shelf.count_assign fun k d hd hid => by rw [Shelf.synced_get hget k d hd hid]; rfl
  exact congrArg (fun n => h.val.admin && decide (n = 1)) hc

lemma userPut_renamed_run (hget : w.users.get name = some h) (hc : h.val.putChecks env op data = .ok newName)
    (hne : name ≠ newName) (hr : h.val.renameChecks w newName = .ok ()) :
    ∃ json, userPut env op draw name (.ok data) w =
      match (h.val.renamed newName).draft env draw data (userKind.isLastAdmin w h.val) with
      | (u, some e) => .error e (userKind.leave env (w.withoutClient h.val.username) h u)
      | (u, none) => (User.save env ⟨h.id, u⟩ >>= fun _ => pure json)
          (userKind.leave env (w.withoutClient h.val.username) h u) := by
  obtain ⟨json, hrn⟩ := User.revise_run draw data _
  rw [userPut_eq]
  refine ⟨json, (run_bind_ok (userPutStart_renamed hget hc hne hr)).trans (hrn.trans ?_)⟩
  simp only [Kind.leave_leave, User.isLastAdmin_leave hget]

lemma User.save_taken (hc : w.clients.get h.val.username ≠ none) :
    User.save env h w = .error (clientConflict h.val.username) w := check_bind_error (if_neg hc)

lemma User.save_free (hc : w.clients.get h.val.username = none) :
    User.save env h w = .ok () { w with users := w.users.put env.mode h.val.username h } := check_bind_ok (if_pos hc)

end

end

end Goiardi.Actors
