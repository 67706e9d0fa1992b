import Goiardi.Dump.Readers

/-! Clients and users are read into one store: a user is refused where a client has its name. -/

namespace Goiardi.Dump

open Validation
open Actors
open Uploads (Fault)

section

variable {α : Type} {w w' : World}

lemma perform_check_bind (x : Except Refusal α) (f : α → Handler Unit) (w : World) :
    perform (check x >>= f) w = (x.mapError .refused >>= fun a => perform (f a) w) := by
  cases x <;> rfl

lemma perform_get_bind (f : World → Handler Unit) (w : World) : perform (get >>= f) w = perform (f w) w := rfl

lemma perform_client_save {env : Env} {c : Cell Client} : perform (Client.save env c) w = .ok w' ↔
    w.users.get c.val.name = none ∧ w' = { w with clients := w.clients.put env.mode c.val.name c } := by
  rw [perform]
  by_cases hf : w.users.get c.val.name = none
  · rw [Client.save_free hf]
    simp [hf, eq_comm]
  · rw [Client.save_taken hf]
    simp [hf]

lemma perform_user_save {env : Env} {u : Cell User} : perform (User.save env u) w = .ok w' ↔
    w.clients.get u.val.username = none ∧ w' = { w with users := w.users.put env.mode u.val.username u } := by
  rw [perform]
  by_cases hf : w.clients.get u.val.username = none
  · rw [User.save_free hf]
    simp [hf, eq_comm]
  · rw [User.save_taken hf]
    simp [hf]

lemma find_eq_none_iff {s : Shelf α} {k : Text} : s.find k = none ↔ s.get k = none := by
  rw [Shelf.find, Option.map_eq_none_iff]

lemma setPublicKey_eq_ok_iff {setup : Setup} {pk pk' : Text} :
    setPublicKey setup (.str pk) = .ok pk' ↔ setup.env.crypto.validatePublicKey pk = none ∧ pk = pk' := by
  rw [setPublicKey]
  split <;> simp [*]

end

section

variable (setup : Setup)

def restoredClient (c : Client) : Client :=
  { c with nodeName := c.name, orgname := [], certificate := [] }

def ClientAccepted (c : Client) : Prop :=
  validateName c.name = true ∧ c.jsonClass = apiClient ∧ c.chefType = clientType ∧ ¬ (c.admin = true ∧ c.validator = true) ∧
    setup.env.crypto.validatePublicKey c.pubKey = none

lemma clientNewFromJSON_eq_ok_iff {w : World} {c c' : Client} : Client.newFromJSON w c.name (clientJSON c) = .ok c' ↔
      w.clients.get c.name = none ∧ validateName c.name = true ∧ c.jsonClass = apiClient ∧ c.chefType = clientType ∧
        ¬ (c.admin = true ∧ c.validator = true) ∧ c' = { restoredClient c with pubKey := [] } := by
  change (do
      require (w.clients.get c.name = none) _
      require (validateName c.name) _
      require (c.name = c.name) _
      let jsonClass ← Client.checkTag _ _ _ (.str c.jsonClass)
      let chefType ← Client.checkTag _ _ _ (.str c.chefType)
      require (¬ (c.admin && c.validator)) _
      return { restoredClient c with jsonClass, chefType, pubKey := [] }) = .ok c' ↔ _
  simp only [bind_eq_ok_iff, require_eq_ok_iff, checkTag_eq_ok_iff, ok_eq_ok_iff, exists_unit, Bool.and_eq_true]
  constructor
  · rintro ⟨hf, hn, -, _, ⟨hc, rfl⟩, _, ⟨ht, rfl⟩, hb, rfl⟩
    exact ⟨hf, hn, hc, ht, hb, rfl⟩
  · rintro ⟨hf, hn, hc, ht, hb, rfl⟩
    exact ⟨hf, hn, trivial, _, ⟨hc, rfl⟩, _, ⟨ht, rfl⟩, hb, rfl⟩

lemma importClient_eq_ok_iff {w w' : World} {c : Client} : importClient setup w (.obj (clientJSON c)) = .ok w' ↔
      w.clients.get c.name = none ∧ ClientAccepted setup c ∧ w.users.get c.name = none ∧
        w' = { w with clients := w.clients.put setup.env.mode c.name (w.clients.fresh (restoredClient c)) } := by
  change perform (check (.ok c.name) >>= fun name =>
      get >>= fun w => check (Client.newFromJSON w name (clientJSON c)) >>= fun c' =>
      check (setPublicKey setup (.str c.pubKey)) >>= fun pubKey =>
      get >>= fun w => Client.save setup.env (w.clients.fresh { c' with pubKey })) w = .ok w' ↔ _
  simp only [perform_check_bind, perform_get_bind, bind_eq_ok_iff, mapError_eq_ok_iff, perform_client_save,
    setPublicKey_eq_ok_iff]
  constructor
  · rintro ⟨_, hn, c', hnw, _, ⟨hk, rfl⟩, hu, rfl⟩
    cases hn
    obtain ⟨hf, hn, hc, ht, hb, rfl⟩ := clientNewFromJSON_eq_ok_iff.mp hnw
    exact ⟨hf, ⟨hn, hc, ht, hb, hk⟩, hu, rfl⟩
  · rintro ⟨hf, ⟨hn, hc, ht, hb, hk⟩, hu, rfl⟩
    exact ⟨_, rfl, _, clientNewFromJSON_eq_ok_iff.mpr ⟨hf, hn, hc, ht, hb, rfl⟩, _, ⟨hk, rfl⟩, hu,
      rfl⟩

def clients (old : Shelf Client) : Loader World Json Client Fault where
  old := old.find
  write _ c := .obj (clientJSON c)
  find w := w.clients.find
  step := importClient setup
  key _ c := c.name
  Makes _ c w := ClientAccepted setup c ∧ w = restoredClient c
  Refuses := True
  Same := Eq
  Inv w := ∀ k, w.users.find k = none
  unique hw hw' := hw.2.trans hw'.2.symm
  accepts {w w' k c} _ _ h := by
    obtain ⟨hfree, haccepted, -, -⟩ := (importClient_eq_ok_iff setup).mp h
    exact ⟨fun _ => find_eq_none_iff.mpr hfree, _, haccepted, rfl⟩
  stores {w k c c'} _ hw hfree hc := by
    obtain ⟨haccepted, rfl⟩ := hc
    refine ⟨_, (importClient_eq_ok_iff setup).mpr ⟨find_eq_none_iff.mp (hfree trivial), haccepted,
      find_eq_none_iff.mp (hw c.name), rfl⟩, hw, fun j => ?_⟩
    exact (Shelf.loose_fresh w.clients (restoredClient c)).synced.find_put
  key_same := by
    rintro k u w v - ⟨-, rfl⟩ rfl
    rfl

end

section

variable (setup : Setup)

def restoredUser (u : User) (salt : List UInt8) : User := { u with username := u.name, email := [], salt }

def newUser (u : User) (salt : List UInt8) : User :=
  { username := u.name, name := u.name, email := [], admin := u.admin, pubKey := [], passwd := [], salt }

def withSecrets (pwhash pubKey : Text) (u : User) : User :=
  { if pwhash = [] then u else { u with passwd := pwhash } with pubKey }

lemma withSecrets_newUser (u : User) (salt : List UInt8) :
    withSecrets u.passwd u.pubKey (newUser u salt) = restoredUser u salt := by
  rw [withSecrets, restoredUser]
  split
  · next h =>
    rw [h]
    rfl
  · rfl

lemma userNewFromJSON_eq_ok_iff {w : World} {u u' : User} :
    User.newFromJSON setup.env (setup.draw u.name) w u.name (setField (userJSON setup.formats u) passwordField (.str [])) =
        .ok u' ↔
      w.users.get u.name = none ∧ validateUserName u.name = true ∧ ∃ salt, (setup.draw u.name).salt = .ok salt ∧
        u' = newUser u salt := by
  have hu (salt : List UInt8) : (User.new u.name salt).updateFromJSON setup.env.crypto
      (userKind.isLastAdmin w (User.new u.name salt)) (setField (userJSON setup.formats u) passwordField (.str [])) =
        (newUser u salt, none) := by
    change (if u.name ≠ u.name then _ else _) = _
    rw [if_neg (not_not.mpr rfl)]
    rfl
  have hp : ((setField (userJSON setup.formats u) passwordField (.str [])).lookup passwordField).isSome = true :=
    rfl
  unfold User.newFromJSON
  simp only [hu, hp, bind_eq_ok_iff, require_eq_ok_iff, mapError_eq_ok_iff, exists_unit, true_and,
    ok_eq_ok_iff, eq_comm (b := u')]

def UserAccepted (old : Shelf Client) (u : User) : Prop :=
  validateUserName u.name = true ∧ setup.env.crypto.validatePublicKey u.pubKey = none ∧ old.find u.name = none

lemma importUser_eq_ok_iff {w w' : World} {u : User} : importUser setup w (.obj (userJSON setup.formats u)) = .ok w' ↔
      w.users.get u.name = none ∧ UserAccepted setup w.clients u ∧ ∃ salt, (setup.draw u.name).salt = .ok salt ∧
        w' = { w with users := w.users.put setup.env.mode u.name (w.users.fresh (restoredUser u salt)) } := by
  change perform (check (.ok u.name) >>= fun name =>
      get >>= fun w => check (User.newFromJSON setup.env (setup.draw name) w name
        (setField (userJSON setup.formats u) passwordField (.str []))) >>= fun u' =>
      check (setPublicKey setup (.str u.pubKey)) >>= fun pubKey =>
      get >>= fun w => User.save setup.env (w.users.fresh (withSecrets u.passwd pubKey u'))) w = .ok w' ↔ _
  simp only [perform_check_bind, perform_get_bind, bind_eq_ok_iff, mapError_eq_ok_iff, perform_user_save,
    setPublicKey_eq_ok_iff]
  constructor
  · rintro ⟨_, hn, u', hnw, _, ⟨hk, rfl⟩, hc, rfl⟩
    cases hn
    obtain ⟨hf, hn, salt, hs, rfl⟩ := (userNewFromJSON_eq_ok_iff setup).mp hnw
    rw [withSecrets_newUser] at hc ⊢
    exact ⟨hf, ⟨hn, hk, find_eq_none_iff.mpr hc⟩, salt, hs, rfl⟩
  · rintro ⟨hf, ⟨hn, hk, hc⟩, salt, hs, rfl⟩
    refine ⟨_, rfl, _, (userNewFromJSON_eq_ok_iff setup).mpr ⟨hf, hn, salt, hs, rfl⟩, _, ⟨hk, rfl⟩, ?_, ?_⟩
    · rw [withSecrets_newUser]
      exact find_eq_none_iff.mp hc
    · rw [withSecrets_newUser]
      rfl

def users (clients : Shelf Client) (old : Shelf User) : Loader World Json User Fault where
  old := old.find
  write _ u := .obj (userJSON setup.formats u)
  find w := w.users.find
  step := importUser setup
  key _ u := u.name
  Makes _ u w := UserAccepted setup clients u ∧ ∃ salt, (setup.draw u.name).salt = .ok salt ∧ w = restoredUser u salt
  Refuses := True
  Same := Eq
  Inv w := ∀ k, w.clients.find k = clients.find k
  unique := by
    rintro k u w w' ⟨-, salt, hsalt, rfl⟩ ⟨-, salt', hsalt', rfl⟩
    cases hsalt.symm.trans hsalt'
    rfl
  accepts {w w' k u} _ hw h := by
    obtain ⟨hfree, ⟨hname, hkey, hclient⟩, salt, hsalt, -⟩ := (importUser_eq_ok_iff setup).mp h
    exact ⟨fun _ => find_eq_none_iff.mpr hfree, _, ⟨hname, hkey, (hw u.name).symm.trans hclient⟩, salt, hsalt, rfl⟩
  stores {w k u u'} _ hw hfree hu := by
    obtain ⟨⟨hname, hkey, hclient⟩, salt, hsalt, rfl⟩ := hu
    refine ⟨_, (importUser_eq_ok_iff setup).mpr ⟨find_eq_none_iff.mp (hfree trivial),
      ⟨hname, hkey, (hw u.name).trans hclient⟩, salt, hsalt, rfl⟩, hw, fun j => ?_⟩
    exact (Shelf.loose_fresh w.users (restoredUser u salt)).synced.find_put
  key_same := by
    rintro k u w v - ⟨-, salt, -, rfl⟩ rfl
    rfl

end

section

variable {α : Type} {setup : Setup} {old : World} {w w' : World}

def entries (s : Shelf α) : List (Text × α) := s.cells.entries.map fun e => (e.1, e.2.val)

lemma mem_entries {s : Shelf α} {e : Text × α} : e ∈ entries s ↔ s.find e.1 = some e.2 := by
  rw [entries, List.mem_map, Shelf.find, Option.map_eq_some_iff]
  constructor
  · rintro ⟨d, hd, rfl⟩
    exact ⟨d.2, AList.mem_lookup_iff.mpr hd, rfl⟩
  · rintro ⟨c, hc, hv⟩
    exact ⟨⟨e.1, c⟩, AList.mem_lookup_iff.mp hc, Prod.ext rfl hv⟩

lemma nodup_entries (s : Shelf α) : ((entries s).map Prod.fst).Nodup := by
  rw [entries, List.map_map]
  exact s.cells.nodupKeys

lemma objects_shelved (encode : α → JsonMap) (s : Shelf α) :
    objects encode (shelved s) = (entries s).map fun e => .obj (encode e.2) := by
  rw [objects, shelved, entries, List.map_map, List.map_map]
  rfl

def ClientReturns (setup : Setup) (k : Text) (c : Client) : Prop :=
  c.name = k ∧ c.nodeName = k ∧ c.orgname = [] ∧ c.certificate = [] ∧ ClientAccepted setup c

lemma clients_returns_iff {k : Text} {c : Client} :
    (clients setup old.clients).Returns k c ↔ ClientReturns setup k c := by
  constructor
  · rintro ⟨hn, _, ⟨ha, rfl⟩, heq⟩
    obtain rfl : c.name = k := hn
    exact ⟨rfl, (congrArg Client.nodeName heq).symm, (congrArg Client.orgname heq).symm,
      (congrArg Client.certificate heq).symm, ha⟩
  · rintro ⟨rfl, hnd, ho, hc, ha⟩
    refine ⟨rfl, _, ⟨ha, rfl⟩, ?_⟩
    cases c
    cases hnd
    cases ho
    cases hc
    rfl

def UserReturns (setup : Setup) (clients : Shelf Client) (k : Text) (u : User) : Prop :=
  u.name = k ∧ u.username = k ∧ u.email = [] ∧ (setup.draw k).salt = .ok u.salt ∧ UserAccepted setup clients u

lemma users_returns_iff {k : Text} {u : User} :
    (users setup old.clients old.users).Returns k u ↔ UserReturns setup old.clients k u := by
  constructor
  · rintro ⟨hn, _, ⟨ha, salt, hs, rfl⟩, heq⟩
    obtain rfl : u.name = k := hn
    obtain rfl : salt = u.salt := congrArg User.salt heq
    exact ⟨rfl, (congrArg User.username heq).symm, (congrArg User.email heq).symm, hs, ha⟩
  · rintro ⟨rfl, hu, he, hs, ha⟩
    refine ⟨rfl, _, ⟨ha, _, hs, rfl⟩, ?_⟩
    cases u
    cases hu
    cases he
    rfl

lemma clients_restored_iff :
    (∃ w, (objects clientJSON (shelved old.clients)).foldlM (importClient setup) Server.empty.actors = .ok w ∧
      ∀ k, w.clients.find k = old.clients.find k) ↔ ∀ k c, old.clients.find k = some c → ClientReturns setup k c := by
  rw [objects_shelved]
  have hr := Loader.restored_iff_eq (L := clients setup old.clients) (s := Server.empty.actors)
    (fun _ _ => Iff.rfl) (fun _ => mem_entries) (fun _ => rfl) (fun _ => rfl) (nodup_entries old.clients)
  exact hr.trans (forall₃_congr fun _ _ _ => clients_returns_iff)

lemma users_of_clients
    (h : (objects clientJSON (shelved old.clients)).foldlM (importClient setup) Server.empty.actors = .ok w) (k : Text) :
    w.users.find k = none := by
  rw [objects_shelved] at h
  exact Loader.load_inv (L := clients setup old.clients) (fun e he => mem_entries.mp he) (fun _ => rfl) h k

lemma clients_of_users
    (h : (objects (userJSON setup.formats) (shelved old.users)).foldlM (importUser setup) w = .ok w') (k : Text) :
    w'.clients.find k = w.clients.find k := by
  rw [objects_shelved] at h
  exact Loader.load_inv (L := users setup w.clients old.users) (fun e he => mem_entries.mp he) (fun _ => rfl) h k

lemma users_restored_iff (hc : ∀ k, w.clients.find k = old.clients.find k) (hu : ∀ k, w.users.find k = none) :
    (∃ w', (objects (userJSON setup.formats) (shelved old.users)).foldlM (importUser setup) w = .ok w' ∧
      ∀ k, w'.users.find k = old.users.find k) ↔
    ∀ k u, old.users.find k = some u → UserReturns setup old.clients k u := by
  rw [objects_shelved]
  have hr := Loader.restored_iff_eq (L := users setup old.clients old.users) (s := w)
    (fun _ _ => Iff.rfl) (fun _ => mem_entries) hc hu (nodup_entries old.users)
  exact hr.trans (forall₃_congr fun _ _ _ => users_returns_iff)

lemma actors_restored_iff :
    (∃ w w', (objects clientJSON (shelved old.clients)).foldlM (importClient setup) Server.empty.actors = .ok w ∧
      (objects (userJSON setup.formats) (shelved old.users)).foldlM (importUser setup) w = .ok w' ∧
      (∀ k, w'.clients.find k = old.clients.find k) ∧ ∀ k, w'.users.find k = old.users.find k) ↔
    (∀ k c, old.clients.find k = some c → ClientReturns setup k c) ∧
      ∀ k u, old.users.find k = some u → UserReturns setup old.clients k u := by
  constructor
  · rintro ⟨w, w', hw, hw', hc, hu⟩
    have hk : ∀ k, w.clients.find k = old.clients.find k := fun k => (clients_of_users hw' k).symm.trans (hc k)
    exact ⟨clients_restored_iff.mp ⟨w, hw, hk⟩,
      (users_restored_iff hk (users_of_clients hw)).mp ⟨w', hw', hu⟩⟩
  · rintro ⟨hc, hu⟩
    obtain ⟨w, hw, hs⟩ := clients_restored_iff.mpr hc
    obtain ⟨w', hw', hs'⟩ := (users_restored_iff hs (users_of_clients hw)).mpr hu
    exact ⟨w, w', hw, hw', fun k => (clients_of_users hw' k).trans (hs k), hs'⟩

end

end Goiardi.Dump
