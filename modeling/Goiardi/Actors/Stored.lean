import Goiardi.Actors.Changes

/-! Whether a client or a user is stored when a request that writes it is answered with success. -/

namespace Goiardi.Actors

open Validation Option Except Shelf

section

structure Answer (σ : Type) where
  success : Bool
  after : σ

variable {ε σ α β : Type}

def answer (x : EStateM ε σ α) (s : σ) : Answer σ :=
  match x s with
  | .ok _ s' => ⟨true, s'⟩
  | .error _ s' => ⟨false, s'⟩

def answerInParts (x : EStateM ε σ (α × Bool)) (f : α → EStateM ε σ β) (s : σ) : Answer σ :=
  match x s with
  | .ok (a, written) s' => if written then ⟨true, (answer (f a) s').after⟩ else answer (f a) s'
  | .error _ s' => ⟨false, s'⟩

variable {x : EStateM ε σ α} {s s' : σ} {a : α} {e : ε}

lemma answer_ok (h : x s = .ok a s') : answer x s = ⟨true, s'⟩ := by rw [answer, h]

lemma answer_error (h : x s = .error e s') : answer x s = ⟨false, s'⟩ := by rw [answer, h]

structure Answer.Honest (r : Answer σ) (stored : σ → Prop) (taken : Prop) : Prop where
  stored : r.success = true → stored r.after
  refused : taken → r.success = false

lemma honest_of_refused {r : Answer σ} {stored : σ → Prop} {taken : Prop} (h : r.success = false) :
    r.Honest stored taken :=
  ⟨fun hs => absurd (h.symm.trans hs) (by simp), fun _ => h⟩

variable {stored : σ → Prop} {taken : Prop}

lemma honest_of_error (h : x s = .error e s') : (answer x s).Honest stored taken :=
  honest_of_refused (by rw [answer_error h])

lemma honest_of_ok (h : x s = .ok a s') (hs : stored s') (ht : ¬ taken) : (answer x s).Honest stored taken := by
  rw [answer_ok h]
  exact ⟨fun _ => hs, fun h => absurd h ht⟩

lemma honest_check {y : Except Refusal α} {f : α → Handler β} {w : World} {stored : World → Prop} {taken : Prop}
    (h : ∀ a, y = .ok a → (answer (f a) w).Honest stored taken) : (answer (check y >>= f) w).Honest stored taken := by
  cases y with
  | error e => exact honest_of_refused rfl
  | ok a => exact h a rfl

end

section

variable (env : Env) (op : Actor)

def clientPutAnswer (draw : Draw) (clientName : Text) (body : Except Text JsonMap) : World → Answer World :=
  answerInParts (clientPutStart env op clientName body) fun p => Client.revise env draw p.1 p.2.1 p.2.2

def userPutAnswer (draw : Draw) (userName : Text) (body : Except Text JsonMap) : World → Answer World :=
  answerInParts (userPutStart env op userName body) fun p => User.revise env draw p.1 p.2.1 p.2.2

end

section

def KeyTaken (data : JsonMap) (key : Text) : Prop :=
  ∀ pk, data.lookup publicKeyField = some (.str pk) → data.lookup privateKeyField ≠ some (.bool true) → key = pk

structure Client.Values (data : JsonMap) (c : Client) : Prop where
  name : lookupField data nameField = .str c.name
  admin : c.admin = readBool data adminField
  validator : c.validator = readBool data validatorField

structure Client.Carries (data : JsonMap) (c : Client) : Prop extends Values data c where
  pubKey : KeyTaken data c.pubKey

structure User.Values (crypto : Crypto) (data : JsonMap) (u : User) : Prop where
  name : lookupField data nameField = .str u.username
  admin : ∀ b, data.lookup adminField = some (.bool b) → u.admin = b
  passwd : ∀ p, lookupField data passwordField = .str p → p ≠ [] → u.passwd = crypto.digest p u.salt

structure User.Carries (crypto : Crypto) (data : JsonMap) (u : User) : Prop extends Values crypto data u where
  pubKey : KeyTaken data u.pubKey

variable {env : Env} {draw : Draw} {data : JsonMap} {lastAdmin : Bool}

section

variable {α : Type} {kind : Kind α} {a a' : α} {json : JsonMap}

lemma bodyKey_ok {key : Option Text} {pk : Text} (h : bodyKey env.crypto data = .ok key)
    (hp : data.lookup publicKeyField = some (.str pk)) : key = some pk ∧ env.crypto.validatePublicKey pk = none := by
  simp only [bodyKey, hp] at h
  cases hv : env.crypto.validatePublicKey pk with
  | some e => simp [hv] at h
  | none =>
    rw [hv] at h
    exact ⟨(ok.inj h).symm, rfl⟩

lemma bodyPair_ok {pair : Option (Text × Text)} (h : bodyPair draw data = .ok pair)
    (hp : data.lookup privateKeyField ≠ some (.bool true)) : pair = none := by
  unfold bodyPair at h
  split at h
  · exact (ok.inj h).symm
  · exact (ok.inj h).symm
  · next hl => exact absurd hl hp
  · cases h

lemma Kind.keyed_ok (h : kind.keyed env draw data a = (a', none)) :
    (∀ P : α → Prop, P a → (∀ pk b, P b → P (kind.withKey pk b)) → P a') ∧
      ∀ pk, data.lookup publicKeyField = some (.str pk) → data.lookup privateKeyField ≠ some (.bool true) →
        a' = kind.withKey pk a := by
  refine ⟨fun P ha hP => ?_, fun pk hpb hpr => ?_⟩
  · have hk : P (kind.keyed env draw data a).1 := Kind.keyed_induct hP ha
    rwa [h] at hk
  · unfold Kind.keyed at h
    cases hk : bodyKey env.crypto data with
    | error e => simp [hk] at h
    | ok key =>
      cases hp : bodyPair draw data with
      | error e => simp [hk, hp] at h
      | ok pair =>
        obtain ⟨rfl, hv⟩ := bodyKey_ok hk hpb
        obtain rfl := bodyPair_ok hp hpr
        simp only [hk, hp, Prod.mk.injEq, and_true] at h
        rw [← h]
        exact if_pos hv

lemma Kind.newKey_ok (h : kind.newKey env draw data a = .ok (a', json)) :
    (∀ P : α → Prop, P a → (∀ pk b, P b → P (kind.withKey pk b)) → P a') ∧
      ∀ pk, data.lookup publicKeyField = some (.str pk) → a' = kind.withKey pk a := by
  refine ⟨fun P ha hP => Kind.newKey_induct hP ha h, fun pk hp => ?_⟩
  simp only [Kind.newKey, hp] at h
  split at h
  · cases h
  · next hv =>
    cases h
    exact if_pos hv

end

variable {field : Text} {c c' : Client} {crypto : Crypto} {u u' : User}

lemma readBool_of_validate {b : Bool} {j : Json} (hj : data.lookup field = some j)
    (hb : validateAsBool j = .ok b) : b = readBool data field := by
  rw [validateAsBool_ok hb] at hj
  simp [readBool, hj]

lemma readBool_of_none (hj : data.lookup field = none) : false = readBool data field := by
  simp [readBool, hj]

lemma Client.Updated.values (h : Updated lastAdmin data c c') : Values data c' := by
  refine ⟨by rw [h.name, h.named], ?_, ?_⟩
  · have ha := h.admin
    unfold adminFlag at ha
    split at ha
    · next hl =>
      rw [← ok.inj ha]
      exact readBool_of_none hl
    · next j hl =>
      split at ha
      · cases ha
      · next b hb =>
        split at ha
        · cases ha
        · rw [← ok.inj ha]
          exact readBool_of_validate hl hb
  · have hv := h.validator
    unfold validatorFlag at hv
    split at hv
    · next hl =>
      rw [← ok.inj hv]
      exact readBool_of_none hl
    · next j hl => exact readBool_of_validate hl hv

lemma Client.draft_carries (h : c.draft env draw data lastAdmin = (c', none)) : c'.Carries data := by
  unfold draft at h
  split at h
  · cases h
  · next c₁ hu =>
    obtain ⟨hk, hky⟩ := Kind.keyed_ok h
    have hv := hk (Values data) (Client.updateFromJSON_ok hu).values fun _ _ hb => ⟨hb.name, hb.admin, hb.validator⟩
    exact ⟨hv, fun pk hpb hp => by rw [hky pk hpb hp]; rfl⟩

lemma User.updatePasswd_values (h : u.updatePasswd crypto data = .ok u') :
    u'.salt = u.salt ∧ ∀ p, lookupField data passwordField = .str p → p ≠ [] → u'.passwd = crypto.digest p u'.salt := by
  obtain ⟨passwd, rfl⟩ := updatePasswd_ok h
  refine ⟨rfl, fun p hp hne => ?_⟩
  simp only [updatePasswd, hp, validateAsString] at h
  rw [ok_bind, if_neg hne, setPasswd] at h
  split at h
  · cases h
  · exact (congrArg User.passwd (ok.inj h)).symm

lemma User.updateFromJSON_values (h : u.updateFromJSON crypto lastAdmin data = (u', none)) :
    Values crypto data u' := by
  unfold updateFromJSON at h
  split at h
  · cases h
  next userName hn =>
  split at h
  · cases h
  next hs =>
  split at h
  · cases h
  split at h
  · cases h
  next u₁ hp =>
  obtain ⟨hsl, hps⟩ := updatePasswd_values hp
  obtain ⟨passwd, rfl⟩ := updatePasswd_ok hp
  have hnm : lookupField data nameField = .str u.username := by
    rw [validateAsString_ok hn, not_not.mp hs]
  split at h
  · next hl =>
    cases h
    refine ⟨hnm, fun b hb => ?_, hps⟩
    rw [hl] at hb
    cases hb
  next j hl =>
  split at h
  · cases h
  next ab hab =>
  split at h
  · cases h
  cases h
  refine ⟨hnm, fun b hb => ?_, hps⟩
  rw [hl, validateAsBool_ok hab] at hb
  exact Json.bool.inj (some.inj hb)

lemma User.draft_carries (h : u.draft env draw data lastAdmin = (u', none)) : u'.Carries env.crypto data := by
  unfold draft at h
  split at h
  · cases h
  · next u₁ hu =>
    obtain ⟨hk, hky⟩ := Kind.keyed_ok h
    have hv := hk (Values env.crypto data) (updateFromJSON_values hu) fun _ _ hb => ⟨hb.name, hb.admin, hb.passwd⟩
    exact ⟨hv, fun pk hpb hp => by rw [hky pk hpb hp]; rfl⟩

end

section

def Names (body : Except Text JsonMap) (name : Text) : Prop :=
  ∃ data, body = .ok data ∧ lookupField data nameField = .str name

def ClientStored (body : Except Text JsonMap) (w : World) : Prop :=
  ∃ data c, body = .ok data ∧ c.Carries data ∧ w.clients.find c.name = some c

def ClientTaken (w : World) (body : Except Text JsonMap) : Prop := ∃ name, Names body name ∧ w.users.get name ≠ none

def UserStored (crypto : Crypto) (body : Except Text JsonMap) (w : World) : Prop :=
  ∃ data u, body = .ok data ∧ u.Carries crypto data ∧ w.users.find u.username = some u

def UserTaken (w : World) (body : Except Text JsonMap) : Prop := ∃ name, Names body name ∧ w.clients.get name ≠ none

variable {env : Env} {op : Actor} {draw : Draw} {body : Except Text JsonMap} {data : JsonMap} {w : World} {name : Text}

lemma Names.unique {name' : Text} (h : Names body name) (h' : Names body name') : name = name' := by
  obtain ⟨data, rfl, hn⟩ := h
  obtain ⟨data', hd, hn'⟩ := h'
  cases hd
  exact Json.str.inj (hn.symm.trans hn')

lemma Names.not_taken {α : Type} {s : Shelf α} (hb : Names body name) (h : s.get name = none) :
    ¬ ∃ name, Names body name ∧ s.get name ≠ none := by
  rintro ⟨name', hb', ht⟩
  rw [hb'.unique hb] at ht
  exact ht h

lemma Client.newFromJSON_values {c : Client} (h : Client.newFromJSON w name data = .ok c) : Values data c := by
  obtain ⟨_, -, h⟩ := bind_eq_ok h
  obtain ⟨_, -, h⟩ := bind_eq_ok h
  exact (Client.updateFromJSON_ok h).values

variable {u : User} {json : JsonMap}

lemma User.newFromJSON_values (h : User.newFromJSON env draw w name data = .ok u) : Values env.crypto data u := by
  obtain ⟨_, -, h⟩ := bind_eq_ok h
  obtain ⟨_, -, h⟩ := bind_eq_ok h
  obtain ⟨salt, -, h⟩ := bind_eq_ok h
  obtain ⟨_, -, h⟩ := bind_eq_ok h
  split at h
  · next u' hu =>
    cases h
    exact User.updateFromJSON_values hu
  · cases h

lemma Client.new_carries {c c' : Client} (h : Client.newFromJSON w name data = .ok c)
    (hk : clientKind.newKey env draw data c = .ok (c', json)) : c'.Carries data := by
  obtain ⟨hkp, hky⟩ := Kind.newKey_ok hk
  have hv := hkp (Values data) (newFromJSON_values h) fun _ _ hb => ⟨hb.name, hb.admin, hb.validator⟩
  exact ⟨hv, fun pk hp _ => by rw [hky pk hp]; rfl⟩

lemma User.new_carries {u u' : User} (h : User.newFromJSON env draw w name data = .ok u)
    (hk : userKind.newKey env draw data u = .ok (u', json)) : u'.Carries env.crypto data := by
  obtain ⟨hkp, hky⟩ := Kind.newKey_ok hk
  have hv := hkp (Values env.crypto data) (newFromJSON_values h) fun _ _ hb => ⟨hb.name, hb.admin, hb.passwd⟩
  exact ⟨hv, fun pk hp _ => by rw [hky pk hp]; rfl⟩

def User.created (env : Env) (op : Actor) (draw : Draw) (w : World) (data : JsonMap) : Except Refusal (User × JsonMap) := do
  let name ← createChecks env op data
  let u ← User.newFromJSON env draw w name data
  userKind.newKey env draw data u

lemma User.created_carries (h : User.created env op draw w data = .ok (u, json)) : u.Carries env.crypto data := by
  obtain ⟨name, -, h⟩ := bind_eq_ok h
  obtain ⟨u₁, hn, hk⟩ := bind_eq_ok h
  exact User.new_carries hn hk

lemma userCreate_run (env : Env) (op : Actor) (draw : Draw) (data : JsonMap) (w : World) :
    ∃ json, userCreate env op draw (.ok data) w =
      match User.created env op draw w data with
      | .error e => .error e w
      | .ok p => .ok json (w.after (User.save env (w.users.fresh p.1))) := by
  cases hc : createChecks env op data with
  | error e =>
    rw [User.created, hc]
    exact ⟨[], (check_bind_ok rfl).trans (check_bind_error hc)⟩
  | ok name =>
    cases hn : User.newFromJSON env draw w name data with
    | error e =>
      rw [User.created, hc, ok_bind, hn]
      exact ⟨[], (check_bind_ok rfl).trans ((check_bind_ok hc).trans ((run_bind_ok rfl).trans (check_bind_error hn)))⟩
    | ok u =>
      have hr : userCreate env op draw (.ok data) w = _ :=
        (check_bind_ok rfl).trans ((check_bind_ok hc).trans ((run_bind_ok rfl).trans (check_bind_ok hn)))
      rw [User.created, hc, ok_bind, hn, ok_bind]
      cases hk : userKind.newKey env draw data u with
      | error e => exact ⟨[], hr.trans (check_bind_error hk)⟩
      | ok p => exact ⟨_, hr.trans ((check_bind_ok hk).trans (run_bind_ok (quietly_run _ _)))⟩

lemma clientCreate_honest (env : Env) (op : Actor) (draw : Draw) (body : Except Text JsonMap) (w : World) :
    (answer (clientCreate env op draw body) w).Honest (ClientStored body) (ClientTaken w body) := by
  refine honest_check fun data hd => honest_check fun name _ =>
    show (answer (check (Client.newFromJSON w name data) >>= _) w).Honest _ _ from
      honest_check fun c hn => honest_check fun p hk => ?_
  obtain ⟨c, json⟩ := p
  obtain rfl := mapError_eq_ok_iff.mp hd
  have hc := Client.new_carries hn hk
  by_cases hf : w.users.get c.name = none
  · have hs : Client.save env (w.clients.fresh c) w = _ := Client.save_free hf
    exact honest_of_ok (run_bind_ok hs) ⟨data, c, rfl, hc, find_put_self⟩
      (Names.not_taken ⟨data, rfl, hc.name⟩ hf)
  · have hs : Client.save env (w.clients.fresh c) w = _ := Client.save_taken hf
    exact honest_of_error ((run_bind_ok (x := get) rfl).trans (run_bind_error hs))

lemma userCreate_honest_iff (env : Env) (op : Actor) (draw : Draw) (body : Except Text JsonMap) (w : World) :
    (answer (userCreate env op draw body) w).Honest (UserStored env.crypto body) (UserTaken w body) ↔
      ∀ data u json, body = .ok data → User.created env op draw w data = .ok (u, json) →
        w.clients.get u.username = none := by
  cases body with
  | error t => exact iff_of_true (honest_of_error (check_bind_error rfl)) fun _ _ _ hd => nomatch hd
  | ok data =>
    obtain ⟨json₀, hr⟩ := userCreate_run env op draw data w
    cases hc : User.created env op draw w data with
    | error e =>
      rw [hc] at hr
      refine iff_of_true (honest_of_error hr) fun data' u json hd hu => ?_
      cases hd
      cases hc.symm.trans hu
    | ok p =>
      obtain ⟨u, json⟩ := p
      rw [hc] at hr
      have hcr := User.created_carries hc
      have hb : Names (.ok data) u.username := ⟨data, rfl, hcr.name⟩
      constructor
      · intro h data' u' json' hd hu
        cases hd
        cases hc.symm.trans hu
        by_contra ht
        have hf := h.refused ⟨u.username, hb, ht⟩
        rw [answer_ok hr] at hf
        cases hf
      · intro h
        have hfr := h data u json rfl hc
        refine honest_of_ok hr ⟨data, u, rfl, hcr, ?_⟩ (hb.not_taken hfr)
        rw [World.after, User.save_free (h := w.users.fresh u) hfr]
        exact find_put_self

end

section

variable {env : Env} {op : Actor} {draw : Draw} {data : JsonMap} {w : World} {name newName : Text}

section

variable {h : Cell Client}

/-- The ways in which the `PUT` of a client is answered with success and breaks its word: `Save` fails because a user
has the name, or the body is refused after a rename. -/
inductive ClientPutSlips (env : Env) (op : Actor) (draw : Draw) (w : World) (name : Text) : Except Text JsonMap → Prop
  | taken {data : JsonMap} {h : Cell Client} (hget : w.clients.get name = some h)
      (hchk : h.val.putChecks env op data = .ok name) (htaken : w.users.get name ≠ none)
      (hok : (h.val.draft env draw data (clientKind.isLastAdmin w h.val)).2 = none) :
      ClientPutSlips env op draw w name (.ok data)
  | refused {data : JsonMap} {h : Cell Client} {newName : Text} (hget : w.clients.get name = some h)
      (hchk : h.val.putChecks env op data = .ok newName) (hne : name ≠ newName)
      (hren : h.val.renameChecks w newName = .ok ())
      (hrest : ((h.val.renamed newName).draft env draw data
        (clientKind.isLastAdmin (w.withoutClient h.val.name) h.val)).2 ≠ none) :
      ClientPutSlips env op draw w name (.ok data)

lemma Client.isLastAdmin_leave (hg : w.clients.get name = some h) (newName old : Text) :
    clientKind.isLastAdmin (clientKind.leave env (w.withoutClient old) h (h.val.renamed newName))
      (h.val.renamed newName) = clientKind.isLastAdmin (w.withoutClient old) h.val := by
  have hc : ((w.clients.remove old).assign env.mode h (h.val.renamed newName)).count Client.admin =
      (w.clients.remove old).count Client.admin := by
    refine count_assign fun k d hd hid => ?_
    have hk : w.clients.get k = some d := by
      by_cases hko : k = old
      · rw [hko, get_remove_self] at hd
        cases hd
      · rwa [get_remove_of_ne hko] at hd
    rw [synced_get hg k d hk hid]
    rfl
  exact congrArg (fun n => h.val.admin && decide (n = 1)) hc

lemma Client.revise_answer (hs : clientKind.leave env w h h.val = w) (json : JsonMap) :
    answer (Client.revise env draw data h json) w =
      match h.val.draft env draw data (clientKind.isLastAdmin w h.val) with
      | (c, some _) => ⟨false, clientKind.leave env w h c⟩
      | (c, none) => ⟨true, (clientKind.leave env w h c).after (Client.save env ⟨h.id, c⟩)⟩ := by
  obtain ⟨json', hr⟩ := Client.revise_run draw data hs json
  cases hd : h.val.draft env draw data (clientKind.isLastAdmin w h.val) with
  | mk c e =>
    rw [hd] at hr
    cases e with
    | none => exact answer_ok hr
    | some e => exact answer_error hr

lemma clientPutAnswer_renamed (hg : w.clients.get name = some h) (hc : h.val.putChecks env op data = .ok newName)
    (hne : name ≠ newName) (hr : h.val.renameChecks w newName = .ok ()) :
    clientPutAnswer env op draw name (.ok data) w =
      match (h.val.renamed newName).draft env draw data (clientKind.isLastAdmin (w.withoutClient h.val.name) h.val) with
      | (c, some _) => ⟨true, clientKind.leave env (w.withoutClient h.val.name) h c⟩
      | (c, none) =>
        ⟨true, (clientKind.leave env (w.withoutClient h.val.name) h c).after (Client.save env ⟨h.id, c⟩)⟩ := by
  have hrv : answer (Client.revise env draw data ⟨h.id, h.val.renamed newName⟩ h.val.toJSON)
      (clientKind.leave env (w.withoutClient h.val.name) h (h.val.renamed newName)) = _ :=
    Client.revise_answer (Kind.leave_leave _) _
  rw [clientPutAnswer, answerInParts, clientPutStart_renamed hg hc hne hr]
  simp only [if_true, hrv, Client.isLastAdmin_leave hg, Kind.leave_leave]
  split <;> rfl

lemma clientPut_same_honest_iff (hg : w.clients.get name = some h) (hch : h.val.putChecks env op data = .ok name) :
    (clientPutAnswer env op draw name (.ok data) w).Honest (ClientStored (.ok data)) (ClientTaken w (.ok data)) ↔
      ((h.val.draft env draw data (clientKind.isLastAdmin w h.val)).2 = none → w.users.get name = none) := by
  rw [clientPutAnswer, answerInParts, clientPutStart_same hg hch]
  simp only [Bool.false_eq_true, if_false]
  rw [Client.revise_answer (Kind.leave_of_synced (synced_get hg))]
  cases hd : h.val.draft env draw data (clientKind.isLastAdmin w h.val) with
  | mk c e =>
    cases e with
    | some e => exact ⟨fun _ he => absurd he (by simp), fun _ => honest_of_refused rfl⟩
    | none =>
      have hc := Client.draft_carries hd
      have hn : c.name = name := Json.str.inj (hc.name.symm.trans ((Client.putChecks_ok hch).2.2))
      have hb : Names (.ok data) name := ⟨data, rfl, (Client.putChecks_ok hch).2.2⟩
      constructor
      · intro hh _
        by_contra ht
        exact absurd (hh.refused ⟨name, hb, ht⟩) (by simp)
      · intro hf
        have hs : w.users.get c.name = none := by
          rw [hn]
          exact hf rfl
        refine ⟨fun _ => ⟨data, c, rfl, hc, ?_⟩, fun ht => absurd ht (hb.not_taken (hf rfl))⟩
        dsimp only
        rw [World.after, Client.save_free (w := clientKind.leave env w h c) (h := ⟨h.id, c⟩) hs]
        exact find_put_self

lemma clientPut_renamed_honest_iff (hgt : w.clients.get name = some h)
    (hch : h.val.putChecks env op data = .ok newName) (hne : name ≠ newName)
    (hr : h.val.renameChecks w newName = .ok ()) :
    (clientPutAnswer env op draw name (.ok data) w).Honest (ClientStored (.ok data)) (ClientTaken w (.ok data)) ↔
      ((h.val.renamed newName).draft env draw data
        (clientKind.isLastAdmin (w.withoutClient h.val.name) h.val)).2 = none := by
  obtain ⟨-, -, hf, hnw⟩ := Client.renameChecks_ok hr
  have hb : Names (.ok data) newName := ⟨data, rfl, (Client.putChecks_ok hch).2.2⟩
  rw [clientPutAnswer_renamed hgt hch hne hr]
  cases hd : (h.val.renamed newName).draft env draw data (clientKind.isLastAdmin (w.withoutClient h.val.name) h.val) with
  | mk c e =>
    cases e with
    | some e =>
      refine ⟨fun hh => ?_, fun he => by cases he⟩
      obtain ⟨data', c', hd', hc', hfn⟩ := hh.stored rfl
      cases hd'
      have hn : c'.name = newName := Json.str.inj (hc'.name.symm.trans ((Client.putChecks_ok hch).2.2))
      have hg : ((w.clients.remove h.val.name).get newName) = none := get_remove_of_none hnw
      have hnn : ((w.clients.remove h.val.name).assign env.mode h c).get newName = none := by
        rw [← not_isSome_iff_eq_none, isSome_get_assign, hg]
        simp
      rw [hn] at hfn
      have hcn := hfn.symm.trans (find_eq_none.mpr hnn)
      cases hcn
    | none =>
      have hc := Client.draft_carries hd
      refine ⟨fun _ => rfl, fun _ => ⟨fun _ => ⟨data, c, rfl, hc, ?_⟩, fun ht => absurd ht (hb.not_taken hf)⟩⟩
      have hs : w.users.get c.name = none := by
        rw [(Client.draft_spec hd).1]
        exact hf
      dsimp only
      rw [World.after, Client.save_free (w := clientKind.leave env (w.withoutClient h.val.name) h c) (h := ⟨h.id, c⟩)
        hs]
      exact find_put_self

lemma clientPut_honest_iff (env : Env) (op : Actor) (draw : Draw) (name : Text) (body : Except Text JsonMap)
    (w : World) : (clientPutAnswer env op draw name body w).Honest (ClientStored body) (ClientTaken w body) ↔
      ¬ ClientPutSlips env op draw w name body := by
  rcases clientPutStart_cases env op name body w with ⟨e, he⟩ | ⟨data, h, newName, rfl, hg, hc, hr⟩
  · have ha : clientPutAnswer env op draw name body w = ⟨false, w⟩ := by rw [clientPutAnswer, answerInParts, he]
    refine ⟨fun _ hs => ?_, fun _ => honest_of_refused (by rw [ha])⟩
    cases hs with
    | taken hg hc _ _ =>
      rw [clientPutStart_same hg hc] at he
      cases he
    | refused hg hc hne hr _ =>
      rw [clientPutStart_renamed hg hc hne hr] at he
      cases he
  · by_cases hne : name = newName
    · subst hne
      rw [clientPut_same_honest_iff hg hc]
      constructor
      · intro hh hs
        cases hs with
        | taken hg' _ htk hok =>
          obtain rfl := some.inj (hg.symm.trans hg')
          exact htk (hh hok)
        | refused hg' hc' hne _ _ =>
          obtain rfl := some.inj (hg.symm.trans hg')
          exact hne (ok.inj (hc.symm.trans hc'))
      · intro hs hok
        by_contra ht
        exact hs (.taken hg hc ht hok)
    · rw [clientPut_renamed_honest_iff hg hc hne (hr hne)]
      constructor
      · intro hok hs
        cases hs with
        | taken hg' hc' _ _ =>
          obtain rfl := some.inj (hg.symm.trans hg')
          exact hne (ok.inj (hc'.symm.trans hc))
        | refused hg' hc' _ _ hrs =>
          obtain rfl := some.inj (hg.symm.trans hg')
          obtain rfl := ok.inj (hc.symm.trans hc')
          exact hrs hok
      · intro hs
        by_contra hrs
        exact hs (.refused hg hc hne (hr hne) hrs)

end

section

variable {h : Cell User}

inductive UserPutSlips (env : Env) (op : Actor) (draw : Draw) (w : World) (name : Text) : Except Text JsonMap → Prop
  | refused {data : JsonMap} {h : Cell User} {newName : Text} (hget : w.users.get name = some h)
      (hchk : h.val.putChecks env op data = .ok newName) (hne : name ≠ newName)
      (hren : h.val.renameChecks w newName = .ok ())
      (hrest : ((h.val.renamed newName).draft env draw data (userKind.isLastAdmin w h.val)).2 ≠ none) :
      UserPutSlips env op draw w name (.ok data)

lemma User.revise_answer (json : JsonMap) :
    answer (User.revise env draw data h json) w =
      match h.val.draft env draw data (userKind.isLastAdmin w h.val) with
      | (u, some _) => ⟨false, userKind.leave env w h u⟩
      | (u, none) => answer (User.save env ⟨h.id, u⟩) (userKind.leave env w h u) := by
  obtain ⟨json', hr⟩ := User.revise_run (w := w) (h := h) draw data json
  cases hd : h.val.draft env draw data (userKind.isLastAdmin w h.val) with
  | mk u e =>
    rw [hd] at hr
    cases e with
    | some e => exact answer_error hr
    | none =>
      cases hs : User.save env ⟨h.id, u⟩ (userKind.leave env w h u) with
      | ok _ w' => exact (answer_ok (hr.trans (run_bind_ok hs))).trans (answer_ok hs).symm
      | error e w' => exact (answer_error (hr.trans (run_bind_error hs))).trans (answer_error hs).symm

lemma userPut_same_honest (hg : w.users.get name = some h) (hc : h.val.putChecks env op data = .ok name) :
    (userPutAnswer env op draw name (.ok data) w).Honest (UserStored env.crypto (.ok data)) (UserTaken w (.ok data)) := by
  have ha : userPutAnswer env op draw name (.ok data) w = answer (User.revise env draw data h
      (h.val.toJSON.filter fun p => p.1 ≠ publicKeyField)) w := by
    rw [userPutAnswer, answerInParts, userPutStart_same hg hc]
    rfl
  rw [ha, User.revise_answer]
  cases hd : h.val.draft env draw data (userKind.isLastAdmin w h.val) with
  | mk u e =>
    cases e with
    | some e => exact honest_of_refused rfl
    | none =>
      have hu := User.draft_carries hd
      have hb : Names (.ok data) u.username := ⟨data, rfl, hu.name⟩
      by_cases hf : w.clients.get u.username = none
      · dsimp only
        rw [answer_ok (User.save_free (w := userKind.leave env w h u) (h := ⟨h.id, u⟩) hf)]
        exact ⟨fun _ => ⟨data, u, rfl, hu, find_put_self⟩, fun ht => absurd ht (hb.not_taken hf)⟩
      · dsimp only
        rw [answer_error (User.save_taken (w := userKind.leave env w h u) (h := ⟨h.id, u⟩) hf)]
        exact honest_of_refused rfl

lemma userPut_renamed_honest_iff (hg : w.users.get name = some h)
    (hc : h.val.putChecks env op data = .ok newName) (hne : name ≠ newName)
    (hr : h.val.renameChecks w newName = .ok ()) :
    (userPutAnswer env op draw name (.ok data) w).Honest (UserStored env.crypto (.ok data)) (UserTaken w (.ok data)) ↔
      ((h.val.renamed newName).draft env draw data (userKind.isLastAdmin w h.val)).2 = none := by
  obtain ⟨-, -, hf, hnw⟩ := User.renameChecks_ok hr
  have hb : Names (.ok data) newName := ⟨data, rfl, (User.putChecks_ok hc).2.2⟩
  have ha : userPutAnswer env op draw name (.ok data) w =
      ⟨true, (answer (User.revise env draw data ⟨h.id, h.val.renamed newName⟩
        (h.val.toJSON.filter fun p => p.1 ≠ publicKeyField))
        (userKind.leave env (w.withoutClient h.val.username) h (h.val.renamed newName))).after⟩ := by
    rw [userPutAnswer, answerInParts, userPutStart_renamed hg hc hne hr]
    rfl
  rw [ha, User.revise_answer]
  simp only [User.isLastAdmin_leave hg, Kind.leave_leave]
  cases hd : (h.val.renamed newName).draft env draw data (userKind.isLastAdmin w h.val) with
  | mk u e =>
    cases e with
    | some e =>
      refine ⟨fun hh => ?_, fun he => by cases he⟩
      obtain ⟨data', u', hd', hu', hfn⟩ := hh.stored rfl
      cases hd'
      have hn : u'.username = newName := Json.str.inj (hu'.name.symm.trans ((User.putChecks_ok hc).2.2))
      have hnn : (w.users.assign env.mode h u).get newName = none := by
        rw [← not_isSome_iff_eq_none, isSome_get_assign, hnw]
        simp
      rw [hn] at hfn
      have hcn := hfn.symm.trans (find_eq_none.mpr hnn)
      cases hcn
    | none =>
      have hu := User.draft_carries hd
      refine ⟨fun _ => rfl, fun _ => ⟨fun _ => ⟨data, u, rfl, hu, ?_⟩, fun ht => absurd ht (hb.not_taken hf)⟩⟩
      have hs : (w.clients.remove h.val.username).get u.username = none := by
        rw [(User.draft_spec hd).1]
        exact get_remove_of_none hf
      dsimp only
      rw [answer_ok (User.save_free (w := userKind.leave env (w.withoutClient h.val.username) h u) (h := ⟨h.id, u⟩)
        hs)]
      exact find_put_self

lemma userPut_honest_iff (env : Env) (op : Actor) (draw : Draw) (name : Text) (body : Except Text JsonMap)
    (w : World) : (userPutAnswer env op draw name body w).Honest (UserStored env.crypto body) (UserTaken w body) ↔
      ¬ UserPutSlips env op draw w name body := by
  rcases userPutStart_cases env op name body w with ⟨e, he⟩ | ⟨data, h, newName, rfl, hg, hc, hr⟩
  · have ha : userPutAnswer env op draw name body w = ⟨false, w⟩ := by rw [userPutAnswer, answerInParts, he]
    refine ⟨fun _ hs => ?_, fun _ => honest_of_refused (by rw [ha])⟩
    obtain ⟨hg, hc, hne, hr, -⟩ := hs
    rw [userPutStart_renamed hg hc hne hr] at he
    cases he
  · by_cases hne : name = newName
    · subst hne
      refine ⟨fun _ hs => ?_, fun _ => userPut_same_honest hg hc⟩
      obtain ⟨hg', hc', hne, -, -⟩ := hs
      obtain rfl := some.inj (hg.symm.trans hg')
      exact hne (ok.inj (hc.symm.trans hc'))
    · rw [userPut_renamed_honest_iff hg hc hne (hr hne)]
      constructor
      · intro hok hs
        obtain ⟨hg', hc', -, -, hrs⟩ := hs
        obtain rfl := some.inj (hg.symm.trans hg')
        obtain rfl := ok.inj (hc.symm.trans hc')
        exact hrs hok
      · intro hs
        by_contra hrs
        exact hs (.refused hg hc hne (hr hne) hrs)

end

end

end Goiardi.Actors
