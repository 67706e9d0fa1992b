import Goiardi.Actors.Changes

/-! Runs of requests: an administrator remains, and nobody becomes one without an administrator. -/

namespace Goiardi.Actors

open Validation Option

def AdminAt (D : Slot → Option Actor) (s : Slot) : Prop := ∃ a, D s = some a ∧ a.admin = true

def HasAdmin (role : Role) (D : Slot → Option Actor) : Prop := ∃ name, AdminAt D (role, name)

section

variable {env : Env} {op a : Actor} {w : World} {o : Operation} {D : Slot → Option Actor} {role : Role}

lemma exists_other_admin (stored : w.at a.slot = some a) (ha : a.admin = true) (notLast : w.isLastAdmin a = false) :
    ∃ name, name ≠ a.name ∧ AdminAt w.at (a.role, name) := by
  cases a with
  | client c =>
    obtain ⟨c', hf, hc⟩ := map_eq_some_iff.mp stored
    cases hc
    have hcn : w.clients.count Client.admin ≠ 1 := by
      intro ho
      have : clientKind.isLastAdmin w c = true := Bool.and_eq_true_iff.mpr ⟨ha, decide_eq_true ho⟩
      rw [show clientKind.isLastAdmin w c = false from notLast] at this
      cases this
    obtain ⟨name, v, hne, hv, hva⟩ := Shelf.exists_other_of_count hf ha hcn
    exact ⟨name, hne, .client v, congrArg (Option.map Actor.client) hv, hva⟩
  | user u =>
    obtain ⟨u', hf, hu⟩ := map_eq_some_iff.mp stored
    cases hu
    have hcn : w.users.count User.admin ≠ 1 := by
      intro ho
      have : userKind.isLastAdmin w u = true := Bool.and_eq_true_iff.mpr ⟨ha, decide_eq_true ho⟩
      rw [show userKind.isLastAdmin w u = false from notLast] at this
      cases this
    obtain ⟨name, v, hne, hv, hva⟩ := Shelf.exists_other_of_count hf ha hcn
    exact ⟨name, hne, .user v, congrArg (Option.map Actor.user) hv, hva⟩

lemma HasAdmin.elsewhere (ha : HasAdmin role w.at) (stored : w.at a.slot = some a) (notLast : w.isLastAdmin a = false) :
    ∃ name, (role, name) ≠ a.slot ∧ AdminAt w.at (role, name) := by
  obtain ⟨name, b, hb, had⟩ := ha
  by_cases hs : (role, name) = a.slot
  · rw [hs, stored] at hb
    cases hb
    obtain ⟨other, hne, ho⟩ := exists_other_admin stored had notLast
    obtain rfl : role = a.role := congrArg Prod.fst hs
    exact ⟨other, fun heq => hne (congrArg Prod.snd heq), ho⟩
  · exact ⟨name, hs, b, hb, had⟩

lemma AdminAt.update {s s' : Slot} {v : Option Actor} (h : AdminAt D s) (hne : s ≠ s') :
    AdminAt (Function.update D s' v) s := by
  obtain ⟨b, hb, ha⟩ := h
  exact ⟨b, by rw [Function.update_of_ne hne, hb], ha⟩

lemma AdminAt.ne_of_free {s s' : Slot} (h : AdminAt D s) (hf : D s' = none) : s ≠ s' := by
  rintro rfl
  obtain ⟨b, hb, -⟩ := h
  rw [hf] at hb
  cases hb

lemma Change.hasAdmin (hc : Change env op w o D) (hls : w.losesAdmin o = false) (ha : HasAdmin o.role w.at) :
    HasAdmin o.role D := by
  cases hc with
  | same => exact ha
  | removed stored hr may notLast =>
    obtain ⟨name, hne, had⟩ := ha.elsewhere stored notLast
    exact ⟨name, had.update hne⟩
  | @written a a' stored hr may slot keeps plain =>
    cases hl : w.isLastAdmin a with
    | true =>
      refine ⟨a.name, a', ?_, keeps hl hls⟩
      rw [← hr]
      exact Function.update_self ..
    | false =>
      obtain ⟨name, hne, had⟩ := ha.elsewhere stored hl
      exact ⟨name, had.update hne⟩
  | moved stored hr may notLast hr' free plain =>
    obtain ⟨name, hne, had⟩ := ha.elsewhere stored notLast
    exact ⟨name, (had.update hne).update (had.ne_of_free (free _))⟩
  | copied stored hr may free plain =>
    obtain ⟨name, had⟩ := ha
    refine ⟨name, (had.update ?_).update (had.ne_of_free (free _))⟩
    rw [hr]
    simp
  | stripped stored hr =>
    obtain ⟨name, had⟩ := ha
    refine ⟨name, had.update ?_⟩
    rw [hr]
    simp
  | created hr free plain =>
    obtain ⟨name, had⟩ := ha
    exact ⟨name, had.update (had.ne_of_free (free _))⟩

lemma no_admin_client (hc : w.clients.count Client.admin = 0) : ¬ HasAdmin .client w.at := by
  rintro ⟨name, a, hat, ha⟩
  obtain ⟨c, hf, rfl⟩ := map_eq_some_iff.mp hat
  exact Shelf.count_ne_zero hf ha hc

lemma no_admin_user (hc : w.users.count User.admin = 0) : ¬ HasAdmin .user w.at := by
  rintro ⟨name, a, hat, ha⟩
  obtain ⟨u, hf, rfl⟩ := map_eq_some_iff.mp hat
  exact Shelf.count_ne_zero hf ha hc

end

def KeepsFlag (env : Env) : World → List Request → Prop
  | _, [] => True
  | w, r :: rs => w.losesAdmin r.operation = false ∧ KeepsFlag env (w.after (serve env r)) rs

/-- An administrator remains among the clients, and among the users. -/
theorem serveAll_hasAdmin (env : Env) (role : Role) (rs : List Request) (w : World) (hw : w.TidyIn role)
    (hrole : ∀ r ∈ rs, r.operation.role = role)
    (hmode : env.mode = .copying ∨ ∀ r ∈ rs, r.operation.renamesUser = false) (hflag : KeepsFlag env w rs)
    (ha : HasAdmin role w.at) : HasAdmin role (w.serveAll env rs).at := by
  induction rs generalizing w with
  | nil => exact ha
  | cons r rs ih =>
    obtain rfl := hrole r (.head _)
    have hm₁ := hmode.imp_right fun h => h r (.head _)
    obtain hsm | ⟨op, -, hs⟩ := serve_sound hw hm₁
    · refine ih (w.after (serve env r)) ?_ (fun q hq => hrole q (.tail _ hq)) (hmode.imp_right fun h q hq => h q (.tail _ hq))
        hflag.2 ?_
      · rw [hsm]
        exact hw
      · rw [hsm]
        exact ha
    · exact ih (w.after (serve env r)) (hs.tidy _ hw) (fun q hq => hrole q (.tail _ hq))
        (hmode.imp_right fun h q hq => h q (.tail _ hq)) hflag.2 (hs.change.hasAdmin hflag.1 ha)

def bossClient : Client := { Client.new "boss" with admin := true }

def bossWorld : World := ⟨Shelf.empty.put .copying "boss" (Shelf.empty.fresh bossClient), Shelf.empty⟩

def keepFlagRequest : Request :=
  ⟨"boss", .putClient "boss" (.ok [(nameField, .str "boss"), (adminField, .bool true)]), noDraw⟩

def dropFlagRequest : Request :=
  ⟨"boss", .putClient "boss" (.ok [(nameField, .str "boss")]), noDraw⟩

theorem serveAll_hasAdmin_boss : HasAdmin .client (bossWorld.serveAll copyingEnv [keepFlagRequest]).at := by
  have ht : bossWorld.TidyIn .client := Shelf.tidy_empty.put_fresh .copying bossClient
  refine serveAll_hasAdmin copyingEnv .client [keepFlagRequest] bossWorld ht ?_ (.inl rfl) ⟨rfl, trivial⟩
    ⟨"boss", .client bossClient, rfl, rfl⟩
  intro r hr
  obtain rfl := List.mem_singleton.mp hr
  rfl

def sharingEnv : Env := { copyingEnv with mode := .sharing }

def adminUser (name : Text) : User := { User.new name [] with admin := true }

def adaWorld : World :=
  let users := Shelf.empty.put .sharing "ada" (Shelf.empty.fresh (adminUser "ada"))
  ⟨Shelf.empty, users.put .sharing "bea" (users.fresh (adminUser "bea"))⟩

def adaRequests : List Request :=
  [⟨"ada", .putUser "ada" (.ok [(nameField, .str "zoe")]), noDraw⟩,
    ⟨"zoe", .deleteUser "bea", noDraw⟩,
    ⟨"zoe", .putUser "zoe" (.ok [(nameField, .str "zoe"), (adminField, .bool false)]), noDraw⟩]

theorem serveAll_no_admin :
    HasAdmin .client bossWorld.at ∧ ¬ HasAdmin .client (bossWorld.serveAll copyingEnv [dropFlagRequest]).at ∧
      HasAdmin .user adaWorld.at ∧ ¬ HasAdmin .user (adaWorld.serveAll sharingEnv adaRequests).at := by
  have hc : (bossWorld.serveAll copyingEnv [dropFlagRequest]).clients.count Client.admin = 0 := by decide +kernel
  have hu : (adaWorld.serveAll sharingEnv adaRequests).users.count User.admin = 0 := by decide +kernel
  refine ⟨⟨"boss", .client bossClient, rfl, rfl⟩, fun h => no_admin_client hc h,
    ⟨"ada", .user (adminUser "ada"), rfl, rfl⟩, fun h => no_admin_user hu h⟩

end Goiardi.Actors
