import Goiardi.Actors.Renames

/-! When a refused `PUT` leaves the stored clients and users as they were. -/

namespace Goiardi.Actors

open Validation

structure SameStore (w w' : World) : Prop where
  clients : ∀ k, w'.clients.find k = w.clients.find k
  users : ∀ k, w'.users.find k = w.users.find k

lemma SameStore.refl (w : World) : SameStore w w := ⟨fun _ => rfl, fun _ => rfl⟩

def KeepsStore {α : Type} (x : Handler α) (w : World) : Prop := ∀ e w', x w = .error e w' → SameStore w w'

section

variable {α : Type} {x : Handler α} {w w' : World} {e : Refusal} {a : α}

lemma keepsStore_error (h : x w = .error e w') : KeepsStore x w ↔ SameStore w w' := by
  constructor
  · intro hk
    exact hk e w' h
  · intro hs e' w'' h'
    rw [h] at h'
    cases h'
    exact hs

lemma keepsStore_ok (h : x w = .ok a w') : KeepsStore x w := by
  intro e w'' h'
  rw [h] at h'
  cases h'

end

section

variable {env : Env} {draw : Draw} {data : JsonMap} {lastAdmin : Bool}

section

variable {α β : Type} {kind : Kind α} {f : α → β} {a a' : α} {json : JsonMap}

lemma Kind.keyed_fixed (hf : ∀ pk a, f (kind.withKey pk a) = f a) (a : α) : f (kind.keyed env draw data a).1 = f a :=
  keyed_induct (P := fun b => f b = f a) (fun pk b => (hf pk b).trans) rfl

lemma Kind.newKey_fixed (hf : ∀ pk a, f (kind.withKey pk a) = f a)
    (h : kind.newKey env draw data a = .ok (a', json)) : f a' = f a :=
  newKey_induct (P := fun b => f b = f a) (fun pk b => (hf pk b).trans) rfl h

end

lemma User.draft_spec {u u' : User} {e : Option Refusal} (h : u.draft env draw data lastAdmin = (u', e)) :
    u'.username = u.username ∧ (u'.admin = u.admin ∨ data.lookup adminField = some (.bool u'.admin) ∧
      (u.admin = true → lastAdmin = true → u'.admin = true)) := by
  have hu := User.updateFromJSON_updated env.crypto lastAdmin u data
  have hn : (u.updateFromJSON env.crypto lastAdmin data).1.username = u.username := by rw [hu.rest]
  unfold draft at h
  cases hd : u.updateFromJSON env.crypto lastAdmin data with
  | mk v e' =>
    rw [hd] at h hu hn
    cases e' with
    | some _ =>
      cases h
      exact ⟨hn, hu.admin⟩
    | none =>
      have hkn : (userKind.keyed env draw data v).1.username = v.username :=
        Kind.keyed_fixed (f := User.username) (fun _ _ => rfl) v
      have hka : (userKind.keyed env draw data v).1.admin = v.admin :=
        Kind.keyed_fixed (f := User.admin) (fun _ _ => rfl) v
      simp only at h
      rw [h] at hkn hka
      simp only at hkn hka
      rw [hkn, hka]
      exact ⟨hn, hu.admin⟩

end

section

variable (env : Env) (op : Actor) (draw : Draw) (w : World) (name : Text) (body : Except Text JsonMap)

/-- The rest of the body is accepted if the client was renamed, and otherwise a body that is refused has assigned
nothing to an object that the store shares. -/
def Client.RefusedCleanly : Prop :=
  ∀ data h newName, body = .ok data → w.clients.get name = some h → h.val.putChecks env op data = .ok newName →
    if name = newName then
      let d := h.val.draft env draw data (clientKind.isLastAdmin w h.val)
      d.2.isSome → env.mode = .sharing → d.1 = h.val
    else
      h.val.renameChecks w newName = .ok () →
        ((h.val.renamed newName).draft env draw data (clientKind.isLastAdmin (w.withoutClient name) h.val)).2 = none

/-- The same for a user, where a rename takes away a client of the old name and `Save` can refuse. -/
def User.RefusedCleanly : Prop :=
  ∀ data h newName, body = .ok data → w.users.get name = some h → h.val.putChecks env op data = .ok newName →
    if name = newName then
      let d := h.val.draft env draw data (userKind.isLastAdmin w h.val)
      d.2.isSome ∨ (w.clients.get d.1.username).isSome → env.mode = .sharing → d.1 = h.val
    else
      let d := (h.val.renamed newName).draft env draw data (userKind.isLastAdmin w h.val)
      h.val.renameChecks w newName = .ok () → d.2.isSome →
        w.clients.get h.val.username = none ∧ (env.mode = .sharing → d.1 = h.val)

end

section

variable {env : Env} {op : Actor} {draw : Draw} {data : JsonMap} {w : World} {name newName : Text} {h : Cell Client}

lemma Client.sameStore_leave (hg : w.clients.get name = some h) {c : Client} :
    SameStore w (clientKind.leave env w h c) ↔ (env.mode = .sharing → c = h.val) := by
  rw [← Shelf.find_assign_eq_iff hg]
  exact ⟨fun hs => hs.clients, fun hs => ⟨hs, fun _ => rfl⟩⟩

lemma Client.keepsStore_same (hg : w.clients.get name = some h) (hc : h.val.putChecks env op data = .ok name) :
    KeepsStore (clientPut env op draw name (.ok data)) w ↔
      ((h.val.draft env draw data (clientKind.isLastAdmin w h.val)).2.isSome → env.mode = .sharing →
        (h.val.draft env draw data (clientKind.isLastAdmin w h.val)).1 = h.val) := by
  obtain ⟨json, hr⟩ := clientPut_same_run draw hg hc
  cases hd : h.val.draft env draw data (clientKind.isLastAdmin w h.val) with
  | mk c e =>
    rw [hd] at hr
    cases e with
    | none => simp [keepsStore_ok hr]
    | some e => simp [keepsStore_error hr, sameStore_leave hg]

lemma Client.not_sameStore_withoutClient (hg : w.clients.get name = some h) : ¬ SameStore w (w.withoutClient name) := by
  intro hs
  rw [Shelf.find_remove_eq_iff.mp hs.clients] at hg
  cases hg

lemma Client.keepsStore_renamed (hw : w.clients.Tidy Client.name) (hg : w.clients.get name = some h)
    (hc : h.val.putChecks env op data = .ok newName) (hne : name ≠ newName)
    (hrn : h.val.renameChecks w newName = .ok ()) : KeepsStore (clientPut env op draw name (.ok data)) w ↔
      ((h.val.renamed newName).draft env draw data (clientKind.isLastAdmin (w.withoutClient name) h.val)).2 = none := by
  obtain ⟨json, hr⟩ := clientPut_renamed_run draw hw hg hc hne hrn
  cases hd : (h.val.renamed newName).draft env draw data (clientKind.isLastAdmin (w.withoutClient name) h.val) with
  | mk c e =>
    rw [hd] at hr
    cases e with
    | none => simp [keepsStore_ok hr]
    | some e => simp [keepsStore_error hr, not_sameStore_withoutClient hg]

end

section

variable {env : Env} {op : Actor} {draw : Draw} {data : JsonMap} {w : World} {name newName old : Text} {h : Cell User}

lemma User.sameStore_leave (hg : w.users.get name = some h) {u : User} :
    SameStore w (userKind.leave env w h u) ↔ (env.mode = .sharing → u = h.val) := by
  rw [← Shelf.find_assign_eq_iff hg]
  exact ⟨fun hs => hs.users, fun hs => ⟨fun _ => rfl, hs⟩⟩

lemma User.keepsStore_same (hg : w.users.get name = some h) (hch : h.val.putChecks env op data = .ok name) :
    KeepsStore (userPut env op draw name (.ok data)) w ↔
      let d := h.val.draft env draw data (userKind.isLastAdmin w h.val)
      (d.2.isSome ∨ (w.clients.get d.1.username).isSome → env.mode = .sharing → d.1 = h.val) := by
  obtain ⟨json, hr⟩ := userPut_same_run draw hg hch
  cases hd : h.val.draft env draw data (userKind.isLastAdmin w h.val) with
  | mk u e =>
    rw [hd] at hr
    cases e with
    | some e => simp [keepsStore_error hr, sameStore_leave hg]
    | none =>
      by_cases hc : w.clients.get u.username = none
      · have hok := hr.trans (run_bind_ok (User.save_free hc))
        simp [keepsStore_ok hok, hc]
      · have he := hr.trans (run_bind_error (User.save_taken hc))
        simp [keepsStore_error he, sameStore_leave hg, Option.isSome_iff_ne_none, hc]

lemma User.keepsStore_renamed (hg : w.users.get name = some h) (hch : h.val.putChecks env op data = .ok newName)
    (hne : name ≠ newName) (hrn : h.val.renameChecks w newName = .ok ()) :
    KeepsStore (userPut env op draw name (.ok data)) w ↔
      let d := (h.val.renamed newName).draft env draw data (userKind.isLastAdmin w h.val)
      (d.2.isSome → w.clients.get h.val.username = none ∧ (env.mode = .sharing → d.1 = h.val)) := by
  obtain ⟨json, hr⟩ := userPut_renamed_run draw hg hch hne hrn
  cases hd : (h.val.renamed newName).draft env draw data (userKind.isLastAdmin w h.val) with
  | mk u e =>
    rw [hd] at hr
    cases e with
    | some e =>
      simp only [keepsStore_error hr, Option.isSome_some, forall_const]
      rw [← Shelf.find_assign_eq_iff hg, ← Shelf.find_remove_eq_iff]
      exact ⟨fun hs => ⟨hs.clients, hs.users⟩, fun hs => ⟨hs.1, hs.2⟩⟩
    | none =>
      -- the new name has no client, so that `Save` accepts it
      have hu : u.username = newName := (User.draft_spec hd).1
      have hc : (w.withoutClient h.val.username).clients.get u.username = none := by
        rw [hu]
        exact Shelf.get_remove_of_none (User.renameChecks_ok hrn).2.2.1
      have hok := hr.trans (run_bind_ok (User.save_free hc))
      simp [keepsStore_ok hok]

end

/-- A refused `PUT` keeps the stored clients and users exactly under the conditions above. -/
theorem put_keepsStore_iff (env : Env) (op : Actor) (draw : Draw) (w : World) (hw : w.clients.Tidy Client.name)
    (name : Text) (body : Except Text JsonMap) :
    (KeepsStore (clientPut env op draw name body) w ↔ Client.RefusedCleanly env op draw w name body) ∧
      (KeepsStore (userPut env op draw name body) w ↔ User.RefusedCleanly env op draw w name body) := by
  refine ⟨⟨?_, ?_⟩, ⟨?_, ?_⟩⟩
  · rintro hk data h newName rfl hg hc
    split
    · next heq =>
      subst heq
      exact (Client.keepsStore_same hg hc).mp hk
    · next hne => exact fun hr => (Client.keepsStore_renamed hw hg hc hne hr).mp hk
  · intro hcl
    obtain ⟨e, he⟩ | ⟨data, h, newName, rfl, hg, hc, hr⟩ := clientPutStart_cases env op name body w
    · rw [clientPut_eq]
      exact (keepsStore_error (run_bind_error he)).mpr (.refl w)
    have hrs := hcl data h newName rfl hg hc
    split at hrs
    · next heq =>
      subst heq
      exact (Client.keepsStore_same hg hc).mpr hrs
    · next hne => exact (Client.keepsStore_renamed hw hg hc hne (hr hne)).mpr (hrs (hr hne))
  · rintro hk data h newName rfl hg hc
    split
    · next heq =>
      subst heq
      exact (User.keepsStore_same hg hc).mp hk
    · next hne => exact fun hr => (User.keepsStore_renamed hg hc hne hr).mp hk
  · intro hcl
    obtain ⟨e, he⟩ | ⟨data, h, newName, rfl, hg, hc, hr⟩ := userPutStart_cases env op name body w
    · rw [userPut_eq]
      exact (keepsStore_error (run_bind_error he)).mpr (.refl w)
    have hrs := hcl data h newName rfl hg hc
    split at hrs
    · next heq =>
      subst heq
      exact (User.keepsStore_same hg hc).mpr hrs
    · next hne => exact (User.keepsStore_renamed hg hc hne (hr hne)).mpr (hrs (hr hne))

def noDraw : Draw := ⟨.error [], .error []⟩

def badRename : JsonMap := [(nameField, .str "app"), (privateKeyField, .str "yes")]

def badKey : JsonMap := [(nameField, .str "web"), (privateKeyField, .str "yes")]

theorem put_keepsStore_iff_web :
    KeepsStore (clientPut copyingEnv (.client webClient) noDraw "web" (.ok badKey)) smallWorld := by
  refine (put_keepsStore_iff _ _ _ _ smallWorld_tidy _ _).1.mpr ?_
  rintro data h newName ⟨⟩ hg hc
  have hs : smallWorld.clients.get "web" = some ⟨0, webClient⟩ := rfl
  rw [hs] at hg
  cases hg
  have hn : newName = "web" := (Except.ok.inj hc).symm
  rw [if_pos hn.symm]
  intro _ _ hm
  cases hm

theorem put_not_keepsStore : clientPut copyingEnv (.client webClient) noDraw "web" (.ok badRename) smallWorld =
      .error (badRequest "Bad request") (smallWorld.withoutClient "web") ∧
    ¬ KeepsStore (clientPut copyingEnv (.client webClient) noDraw "web" (.ok badRename)) smallWorld := by
  have hr : clientPut copyingEnv (.client webClient) noDraw "web" (.ok badRename) smallWorld =
      .error (badRequest "Bad request") (smallWorld.withoutClient "web") := by rfl
  refine ⟨hr, fun hk => ?_⟩
  have hs : smallWorld.clients.get "web" = some ⟨0, webClient⟩ := rfl
  exact Client.not_sameStore_withoutClient hs ((keepsStore_error hr).mp hk)

end Goiardi.Actors
