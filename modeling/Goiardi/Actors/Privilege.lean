import Goiardi.Actors.Admins

/-! Requests of actors that are not administrators. -/

namespace Goiardi.Actors

open Validation Option Actor

def Exclusive (D : Slot → Option Actor) : Prop := ∀ name, D (.client, name) = none ∨ D (.user, name) = none

section

variable {w : World} {name : Text} {a : Actor} {s : Slot}

lemma World.slot_of_at (hw : ∀ role, w.TidyIn role) (h : w.at s = some a) : a.slot = s := by
  obtain ⟨role, name⟩ := s
  cases role with
  | client =>
    obtain ⟨c, hf, rfl⟩ := map_eq_some_iff.mp h
    exact congrArg (Prod.mk Role.client) ((hw .client).find_name hf)
  | user =>
    obtain ⟨u, hf, rfl⟩ := map_eq_some_iff.mp h
    exact congrArg (Prod.mk Role.user) ((hw .user).find_name hf)

lemma World.at_of_actor (h : w.actor name = some a) : w.at (a.role, name) = some a := by
  unfold actor at h
  cases hc : w.clients.find name with
  | some c =>
    rw [hc] at h
    cases h
    exact congrArg (Option.map client) hc
  | none =>
    rw [hc] at h
    obtain ⟨u, hu, rfl⟩ := map_eq_some_iff.mp h
    exact congrArg (Option.map user) hu

lemma World.actor_of_at (hex : Exclusive w.at) {role : Role} (h : w.at (role, name) = some a) :
    w.actor name = some a := by
  cases role with
  | client =>
    obtain ⟨c, hf, rfl⟩ := map_eq_some_iff.mp h
    rw [actor, hf]
  | user =>
    have hc : w.clients.find name = none := by
      rcases hex name with hn | hn
      · exact map_eq_none_iff.mp hn
      · rw [hn] at h
        cases h
    obtain ⟨u, hf, rfl⟩ := map_eq_some_iff.mp h
    rw [actor, hc]
    exact congrArg (Option.map user) hf

end

structure Harmless (op : Actor) (D D' : Slot → Option Actor) : Prop where
  admins : ∀ s, AdminAt D' s → AdminAt D s
  others : ∀ s a, D s = some a → s ≠ op.slot → D' s = some a
  exclusive : Exclusive D'

section

variable {env : Env} {op a : Actor} {w : World} {o : Operation} {D D' : Slot → Option Actor}

lemma Harmless.refl (hex : Exclusive D) : Harmless op D D := ⟨fun _ h => h, fun _ _ h _ => h, hex⟩

lemma update_none_of_none {s t : Slot} (h : D t = none) : Function.update D s none t = none := by
  by_cases hts : t = s
  · rw [hts, Function.update_self]
  · rw [Function.update_of_ne hts, h]

lemma Exclusive.removed (hex : Exclusive D) (s : Slot) : Exclusive (Function.update D s none) := fun name =>
  (hex name).imp update_none_of_none update_none_of_none

lemma Exclusive.added (hex : Exclusive D) (hf : ∀ role, D (role, a.name) = none ∨ role = a.role) :
    Exclusive (Function.update D a.slot (some a)) := by
  intro name
  by_cases hn : name = a.name
  · subst hn
    have ho : ∀ role, role ≠ a.role → Function.update D a.slot (some a) (role, a.name) = none := by
      intro role hr
      rw [Function.update_of_ne (fun heq => hr (congrArg Prod.fst heq))]
      exact (hf role).resolve_right hr
    cases hrl : a.role with
    | client => exact .inr (ho .user (by rw [hrl]; simp))
    | user => exact .inl (ho .client (by rw [hrl]; simp))
  · have hk : ∀ role, Function.update D a.slot (some a) (role, name) = D (role, name) := fun role =>
      Function.update_of_ne (fun heq => hn (congrArg Prod.snd heq)) ..
    rw [hk, hk]
    exact hex name

lemma AdminAt.of_update_none {s t : Slot} (h : AdminAt (Function.update D s none) t) : AdminAt D t := by
  obtain ⟨b, hb, ha⟩ := h
  by_cases hts : t = s
  · rw [hts, Function.update_self] at hb
    cases hb
  · rw [Function.update_of_ne hts] at hb
    exact ⟨b, hb, ha⟩

lemma AdminAt.of_update_plain {s t : Slot} (h : AdminAt (Function.update D s (some a)) t) (ha : a.admin = false) :
    AdminAt D t := by
  obtain ⟨b, hb, had⟩ := h
  by_cases hts : t = s
  · rw [hts, Function.update_self] at hb
    cases hb
    rw [ha] at had
    cases had
  · rw [Function.update_of_ne hts] at hb
    exact ⟨b, hb, had⟩

lemma Harmless.removed (h : Harmless op D D') {s : Slot} (hs : s = op.slot ∨ D s = none) :
    Harmless op D (Function.update D' s none) := by
  refine ⟨fun t ht => h.admins t ht.of_update_none, fun t b hb ht => ?_, h.exclusive.removed s⟩
  have hts : t ≠ s := by
    rintro rfl
    rcases hs with hs | hs
    · exact ht hs
    · rw [hs] at hb
      cases hb
  rw [Function.update_of_ne hts]
  exact h.others t b hb ht

lemma Harmless.added (h : Harmless op D D') (ha : a.admin = false) (hs : a.slot = op.slot ∨ D a.slot = none)
    (hf : ∀ role, D' (role, a.name) = none ∨ role = a.role) : Harmless op D (Function.update D' a.slot (some a)) := by
  refine ⟨fun t ht => h.admins t (ht.of_update_plain ha), fun t b hb ht => ?_, h.exclusive.added hf⟩
  have hts : t ≠ a.slot := by
    rintro rfl
    rcases hs with hs | hs
    · exact ht hs
    · rw [hs] at hb
      cases hb
  rw [Function.update_of_ne hts]
  exact h.others t b hb ht

lemma Actor.May.eq_self (hm : op.May env a) (hat : env.useAuth = true) (hop : op.admin = false)
    (stored : w.at a.slot = some a) (hs : w.at op.slot = some op) : a = op := by
  have hsl : a.slot = op.slot := by
    rcases hm with ha | hsf
    · cases op <;> simp_all [isAdmin, admin]
    · cases op <;> cases a <;> simp_all [isSelf, slot, role, name]
  rw [hsl, hs] at stored
  exact (some.inj stored).symm

lemma Exclusive.other (hex : Exclusive D) {b : Actor} (hb : D a.slot = some b) (role : Role) :
    D (role, a.name) = none ∨ role = a.role := by
  by_cases hr : role = a.role
  · exact .inr hr
  · refine .inl ?_
    unfold slot at hb
    rcases hex a.name with h | h <;> cases role <;> cases hrl : a.role <;> simp_all

lemma Change.harmless (hc : Change env op w o D) (hex : Exclusive w.at) (ha : env.useAuth = true)
    (hop : op.admin = false) (hs : w.at op.slot = some op) : Harmless op w.at D := by
  have hn : op.isAdmin env.useAuth = false := by cases op <;> simpa [isAdmin, admin, ha] using hop
  have hr : Harmless op w.at w.at := .refl hex
  cases hc with
  | same => exact hr
  | removed stored hrl may notLast =>
    obtain rfl := may.eq_self ha hop stored hs
    exact hr.removed (.inl rfl)
  | written stored hrl may slot keeps plain =>
    obtain rfl := may.eq_self ha hop stored hs
    rw [← slot] at hs ⊢
    exact hr.added (plain hn hop) (.inl slot) (hex.other hs)
  | @moved a a' stored hrl may notLast hr' free plain =>
    obtain rfl := may.eq_self ha hop stored hs
    refine (hr.removed (.inl rfl)).added (plain hn hop) (.inr (free _)) fun role => ?_
    exact .inl (update_none_of_none (free role))
  | @copied u u' stored hrl may free plain =>
    obtain rfl := may.eq_self ha hop stored hs
    have hcl : w.at (.client, u.username) = none := (hex.other stored .client).resolve_right (by simp [role])
    refine (hr.removed (.inr hcl)).added (a := .user u') (plain hn hop) (.inr (free _)) fun role => ?_
    exact .inl (update_none_of_none (free role))
  | @stripped u stored hrl =>
    have hcl : w.at (.client, u.username) = none := (hex.other stored .client).resolve_right (by simp [role])
    exact hr.removed (.inr hcl)
  | created hrl free plain => exact hr.added (plain hn) (.inr (free _)) fun role => .inl (free role)

end

section

variable {env : Env} {w : World} {r : Request} {rs : List Request}

structure Unprivileged (env : Env) (rs : List Request) (w : World) : Prop where
  tidy : ∀ role, w.TidyIn role
  exclusive : Exclusive w.at
  plain : ∀ r ∈ rs, ∀ a, w.actor r.user = some a → a.admin = false
  mode : env.mode = .copying ∨ ∀ r ∈ rs, r.operation.renamesUser = false

lemma Unprivileged.step (h : Unprivileged env (r :: rs) w) (hah : env.useAuth = true) :
    Unprivileged env rs (w.after (serve env r)) ∧ (∀ s, AdminAt (w.after (serve env r)).at s → AdminAt w.at s) ∧
      ∀ s a, w.at s = some a → (∀ op, w.actor r.user = some op → s ≠ (op.role, r.user)) →
        (w.after (serve env r)).at s = some a := by
  have hr : env.requester r = r.user := by rw [Env.requester, hah]; rfl
  have hrs : ∀ v : World, (∀ role, v.TidyIn role) → Exclusive v.at → (∀ s, AdminAt v.at s → AdminAt w.at s) →
      Unprivileged env rs v := by
    intro v ht hex had
    refine ⟨ht, hex, fun q hq a ha => ?_, h.mode.imp_right fun hm q hq => hm q (.tail _ hq)⟩
    by_contra ham
    obtain ⟨b, hb, hb'⟩ := had _ ⟨a, World.at_of_actor ha, by simpa using ham⟩
    have hbw := World.actor_of_at h.exclusive hb
    rw [h.plain q (.tail _ hq) b hbw] at hb'
    cases hb'
  obtain hsm | ⟨op, hop, hsn⟩ := serve_sound (h.tidy _) (h.mode.imp_right fun hm => hm r (.head _))
  · rw [hsm]
    exact ⟨hrs w h.tidy h.exclusive fun _ hs => hs, fun _ hs => hs, fun _ _ ha _ => ha⟩
  · rw [hr] at hop
    have hat := World.at_of_actor hop
    have hsl : op.slot = (op.role, r.user) := World.slot_of_at h.tidy hat
    rw [← hsl] at hat
    have hh := hsn.change.harmless h.exclusive hah (h.plain r (.head _) op hop) hat
    refine ⟨hrs _ (fun role => hsn.tidy role (h.tidy role)) hh.exclusive hh.admins, hh.admins, ?_⟩
    intro s a ha hne
    exact hh.others s a ha (hsl ▸ hne op hop)

end

/-- In a run of requests of actors that are not administrators, nobody becomes an administrator, and each request
leaves every stored actor but the requesting one as it is. -/
theorem serveAll_unprivileged (env : Env) (hauth : env.useAuth = true) (w : World) (rs : List Request)
    (h : Unprivileged env rs w) (done : List Request) (r : Request) (rest : List Request) (hrs : rs = done ++ r :: rest) :
    (∀ s, AdminAt (w.serveAll env (done ++ [r])).at s → AdminAt w.at s) ∧ ∀ s a, (w.serveAll env done).at s = some a →
        (∀ op, (w.serveAll env done).actor r.user = some op → s ≠ (op.role, r.user)) →
          (w.serveAll env (done ++ [r])).at s = some a := by
  subst hrs
  induction done generalizing w with
  | nil =>
    obtain ⟨-, ha, ho⟩ := h.step hauth
    exact ⟨ha, ho⟩
  | cons q done ih =>
    obtain ⟨hn, ha, -⟩ := Unprivileged.step h hauth
    obtain ⟨ha', ho⟩ := ih (w.after (serve env q)) hn
    exact ⟨fun s hs => ha s (ha' s hs), ho⟩

def moveRequest : Request :=
  ⟨"web", .putClient "web" (.ok [(nameField, .str "app")]), noDraw⟩

lemma smallWorld_unprivileged : Unprivileged copyingEnv [moveRequest] smallWorld := by
  refine ⟨fun role => ?_, fun name => ?_, fun r hr a ha => ?_, .inl rfl⟩
  · cases role with
    | client => exact smallWorld_tidy
    | user => exact Shelf.tidy_empty.put_fresh .copying annaUser
  · by_cases hn : name = "web"
    · subst hn
      exact .inr rfl
    · have hf : smallWorld.clients.find name = none := by
        rw [smallWorld, Shelf.find_put_copying, if_neg hn]
        rfl
      exact .inl (congrArg (Option.map client) hf)
  · obtain rfl := List.mem_singleton.mp hr
    cases ha
    rfl

theorem serveAll_unprivileged_web :
    (smallWorld.serveAll copyingEnv [moveRequest]).at (.user, "anna") = some (.user annaUser) := by
  refine (serveAll_unprivileged copyingEnv rfl smallWorld [moveRequest] smallWorld_unprivileged [] moveRequest [] rfl).2
    (.user, "anna") (.user annaUser) rfl fun op hop => ?_
  cases hop
  decide

def validatorClient : Client := { Client.new "val" with validator := true }

def xiaWorld : World :=
  ⟨Shelf.empty.put .sharing "val" (Shelf.empty.fresh validatorClient),
    Shelf.empty.put .sharing "xia" (Shelf.empty.fresh (User.new "xia" []))⟩

def freshDraw : Draw := ⟨.ok ([], []), .ok []⟩

def xiaRequests : List Request :=
  [⟨"xia", .putUser "xia" (.ok [(nameField, .str "zoe")]), noDraw⟩,
    ⟨"xia", .deleteUser "zoe", noDraw⟩,
    ⟨"val", .createUser (.ok [(nameField, .str "zoe"), (passwordField, .str "secret")]), freshDraw⟩]

theorem serveAll_deletes_other : xiaWorld.clients.count Client.admin = 0 ∧ xiaWorld.users.count User.admin = 0 ∧
      (xiaWorld.serveAll sharingEnv (xiaRequests.take 2)).at (.user, "zoe") = none ∧
      ((xiaWorld.serveAll sharingEnv xiaRequests).at (.user, "zoe")).isSome = true ∧
      (xiaWorld.serveAll sharingEnv (xiaRequests ++ [⟨"xia", .deleteUser "zoe", noDraw⟩])).at
        (.user, "zoe") = none := by
  decide +kernel

end Goiardi.Actors
