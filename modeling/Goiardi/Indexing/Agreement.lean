import Goiardi.Indexing.Frame

/-! The names that the index and the store hold, over runs of requests whose index work is done before the next one. -/

namespace Goiardi.Indexing

open Validation AList
open Search (FileIndex IdxDoc)
open Actors (Client Refusal World Actor Draw)
open DataBags (DataBag DataBagItem rawDataBagJSON idField itemId)
open Objects (Node Role ChefEnvironment)
open Uploads (Fault)

section

variable (env : Settings) (s : Server)

def Server.names (idx id : Text) : Bool :=
  if idx = "node" then (s.nodes.lookup id).isSome
  else if idx = "role" then (s.roles.lookup id).isSome
  else if idx = "client" then (s.actors.clients.get id).isSome
  else if idx = "environment" then (s.environments.lookup id).isSome
  else ((s.bags.lookup idx).bind fun db => db.items.lookup id).isSome

def Server.settled : FileIndex := s.pending.foldl (fun i o => saveItem i env.build o) s.index

def Server.settle : Server := { s with index := s.settled env, pending := [] }

def Server.Agrees : Prop := ∀ idx id, (document s.index idx id).isSome = s.names idx id

structure Server.Named : Prop where
  nodes : ∀ k n, s.nodes.lookup k = some n → n.name = k
  roles : ∀ k r, s.roles.lookup k = some r → r.name = k
  environments : ∀ k e, s.environments.lookup k = some e → e.name = k
  clients : s.actors.clients.Tidy Client.name
  bags : ∀ k db, s.bags.lookup k = some db → db.name = k ∧ k ∉ builtins ∧
    ∀ id item, db.items.lookup id = some item → item.dataBagName = k

structure Agreeing : Prop where
  named : s.Named
  agrees : ∀ idx id, (document (s.settled env) idx id).isSome = s.names idx id

structure Idle : Prop extends Agreeing env s where
  quiet : s.pending = []

end

variable {env : Settings} {s s' : Server}

lemma Idle.present (h : Idle env s) (idx id : Text) : (document s.index idx id).isSome = s.names idx id := by
  rw [← show s.settled env = s.index by rw [Server.settled, h.quiet]; rfl]
  exact h.agrees idx id

lemma Agreeing.saved (h : Agreeing env s) (o : Object) (hn : s'.Named) (hi : s'.index = s.index)
    (hp : s'.pending = s.pending ++ [env.indexable o])
    (hnm : ∀ idx id, s'.names idx id = (decide (idx = o.index ∧ id = o.docID) || s.names idx id)) :
    Agreeing env s' := by
  refine ⟨hn, fun idx id => ?_⟩
  have hs : s'.settled env = saveItem (s.settled env) env.build (env.indexable o) := by
    rw [Server.settled, hp, hi, List.foldl_append]
    rfl
  rw [hs, document_saveItem, hnm, ← h.agrees]
  by_cases hi : idx = (env.indexable o).index ∧ id = (env.indexable o).docID
  · rw [if_pos hi]
    simp [show idx = o.index ∧ id = o.docID from hi]
  · rw [if_neg hi]
    simp [show ¬ (idx = o.index ∧ id = o.docID) from hi]

lemma Idle.deleted (h : Idle env s) (idx doc : Text) (hn : s'.Named)
    (hi : s'.index = attempt s.index (deleteItem s.index idx doc)) (hp : s'.pending = s.pending)
    (hnm : ∀ k id, s'.names k id = (!decide (k = idx ∧ id = doc) && s.names k id)) : Idle env s' := by
  have hq : s'.pending = [] := hp.trans h.quiet
  refine ⟨⟨hn, fun k id => ?_⟩, hq⟩
  rw [Server.settled, hq]
  change (document s'.index k id).isSome = _
  rw [hi, document_deleteItem, hnm, ← h.present]
  split <;> simp [*]

lemma Agreeing.settle (h : Agreeing env s) : Idle env (s.settle env) :=
  ⟨⟨⟨h.named.nodes, h.named.roles, h.named.environments, h.named.clients, h.named.bags⟩, h.agrees⟩, rfl⟩

section

variable {α : Type} {t : AList fun _ : Text => α} {name : α → Text} {a : α}

lemma isSome_lookup_insert (k id : Text) (a : α) :
    ((t.insert k a).lookup id).isSome = (decide (id = k) || (t.lookup id).isSome) := by
  by_cases h : id = k
  · subst h
    simp
  · simp [lookup_insert_ne h, h]

lemma isSome_lookup_erase (k id : Text) :
    ((t.erase k).lookup id).isSome = (!decide (id = k) && (t.lookup id).isSome) := by
  by_cases h : id = k
  · subst h
    simp
  · simp [lookup_erase_ne h, h]

lemma named_insert (h : ∀ k b, t.lookup k = some b → name b = k) (a : α) :
    ∀ k b, (t.insert (name a) a).lookup k = some b → name b = k := by
  intro k b hb
  by_cases hk : k = name a
  · subst hk
    rw [lookup_insert] at hb
    cases hb
    rfl
  · rw [lookup_insert_ne hk] at hb
    exact h k b hb

lemma named_erase (h : ∀ k b, t.lookup k = some b → name b = k) (j : Text) :
    ∀ k b, (t.erase j).lookup k = some b → name b = k := by
  intro k b hb
  by_cases hk : k = j
  · subst hk
    rw [lookup_erase] at hb
    cases hb
  · rw [lookup_erase_ne hk] at hb
    exact h k b hb

end

section

variable {α : Type} {t : AList fun _ : Text => α} {idx id k K J : Text} {a : α} {p : Prop} [Decidable p] {A B : Bool}

lemma view_or :
    (if idx = K then (decide (id = k) || A) else B) = (decide (idx = K ∧ id = k) || if idx = K then A else B) := by
  by_cases h : idx = K
  · rw [if_pos h, if_pos h, decide_eq_decide.mpr (and_iff_right h)]
  · rw [if_neg h, if_neg h, decide_eq_false fun h' => h h'.1, Bool.false_or]

lemma view_and :
    (if idx = K then (!decide (id = k) && A) else B) = (!decide (idx = K ∧ id = k) && if idx = K then A else B) := by
  by_cases h : idx = K
  · rw [if_pos h, if_pos h, decide_eq_decide.mpr (and_iff_right h)]
  · rw [if_neg h, if_neg h, decide_eq_false fun h' => h h'.1, Bool.not_false, Bool.true_and]

lemma view_insert :
    (if idx = K then ((t.insert k a).lookup id).isSome else B) =
      (decide (idx = K ∧ id = k) || if idx = K then (t.lookup id).isSome else B) := by
  rw [isSome_lookup_insert, view_or]

lemma view_erase :
    (if idx = K then ((t.erase k).lookup id).isSome else B) =
      (!decide (idx = K ∧ id = k) && if idx = K then (t.lookup id).isSome else B) := by
  rw [isSome_lookup_erase, view_and]

lemma view_or_of_ne (h : K ≠ J) :
    (if idx = J then A else (decide (idx = K ∧ p) || B)) = (decide (idx = K ∧ p) || if idx = J then A else B) := by
  by_cases hJ : idx = J
  · rw [if_pos hJ, if_pos hJ, decide_eq_false fun h' => h (h'.1.symm.trans hJ), Bool.false_or]
  · rw [if_neg hJ, if_neg hJ]

lemma view_and_of_ne (h : K ≠ J) :
    (if idx = J then A else (!decide (idx = K ∧ p) && B)) = (!decide (idx = K ∧ p) && if idx = J then A else B) := by
  by_cases hJ : idx = J
  · rw [if_pos hJ, if_pos hJ, decide_eq_false fun h' => h (h'.1.symm.trans hJ), Bool.not_false, Bool.true_and]
  · rw [if_neg hJ, if_neg hJ]

end

lemma role_ne_node : "role".toList ≠ "node" := by decide

lemma client_ne_node : "client".toList ≠ "node" := by decide

lemma client_ne_role : "client".toList ≠ "role" := by decide

lemma environment_ne_node : "environment".toList ≠ "node" := by decide

lemma environment_ne_role : "environment".toList ≠ "role" := by decide

lemma environment_ne_client : "environment".toList ≠ "client" := by decide

lemma Idle.agreeing (h : Idle env s) : Agreeing env s := h.toAgreeing

lemma saveNode_leads (n : Node) : Leads (Idle env) (Agreeing env) (saveNode env n) := by
  intro s hs
  exact hs.agreeing.saved (.node n) ⟨named_insert hs.named.nodes n, hs.named.roles, hs.named.environments,
    hs.named.clients, hs.named.bags⟩ rfl rfl fun idx id => view_insert

lemma deleteNode_leads (n : Node) : Leads (Idle env) (Idle env) (deleteNode n) := by
  intro s hs
  exact hs.deleted "node" n.name ⟨named_erase hs.named.nodes n.name, hs.named.roles, hs.named.environments, hs.named.clients,
    hs.named.bags⟩ rfl rfl fun idx id => view_erase

lemma saveRole_leads (r : Role) : Leads (Idle env) (Agreeing env) (saveRole env r) := by
  intro s hs
  refine hs.agreeing.saved (.role r) ⟨hs.named.nodes, named_insert hs.named.roles r, hs.named.environments,
    hs.named.clients, hs.named.bags⟩ rfl rfl fun idx id => ?_
  exact (congrArg _ view_insert).trans (view_or_of_ne role_ne_node)

lemma deleteRole_leads (r : Role) : Leads (Idle env) (Idle env) (deleteRole r) := by
  intro s hs
  refine hs.deleted "role" r.name ⟨hs.named.nodes, named_erase hs.named.roles r.name, hs.named.environments, hs.named.clients,
    hs.named.bags⟩ rfl rfl fun idx id => ?_
  exact (congrArg _ view_erase).trans (view_and_of_ne role_ne_node)

lemma storeEnvironment_leads (e : ChefEnvironment) :
    Leads (Idle env) (Agreeing env) (do
      modify fun s => { s with environments := s.environments.insert e.name e }
      indexObj env (.environment e)) := by
  intro s hs
  refine hs.agreeing.saved (.environment e) ⟨hs.named.nodes, hs.named.roles, named_insert hs.named.environments e,
    hs.named.clients, hs.named.bags⟩ rfl rfl fun idx id => ?_
  simp only [Server.names]
  rw [view_insert, view_or_of_ne environment_ne_client, view_or_of_ne environment_ne_role,
    view_or_of_ne environment_ne_node]
  rfl

lemma saveEnvironment_leads (e : ChefEnvironment) : Leads (Idle env) (Agreeing env) (saveEnvironment env e) :=
  .after_keeps (keeps_check _) (fun _ => Idle.agreeing) fun _ _ => storeEnvironment_leads e

lemma deleteEnvironment_leads (e : ChefEnvironment) : Leads (Idle env) (Idle env) (deleteEnvironment e) := by
  refine .after_keeps (keeps_check _) (fun _ h => h) fun _ _ s hs => ?_
  refine hs.deleted "environment" e.name ⟨hs.named.nodes, hs.named.roles,
    named_erase hs.named.environments e.name, hs.named.clients, hs.named.bags⟩ rfl rfl fun idx id => ?_
  simp only [Server.names]
  rw [view_erase, view_and_of_ne environment_ne_client, view_and_of_ne environment_ne_role,
    view_and_of_ne environment_ne_node]

lemma quietly_keeps {I : Server → Prop} {x : Handler Unit} (hx : Leads I I x) : Keeps I (quietly x) fun _ => True := by
  intro s hs
  have h := hx s hs
  rw [quietly]
  cases hr : x s with
  | ok a s' =>
    rw [hr] at h
    exact ⟨h, trivial⟩
  | error e s' =>
    rw [hr] at h
    exact ⟨h, trivial⟩

section

variable {I : Server → Prop} {op : Actor}

lemma keeps_getNode (name : Text) : Keeps I (getNode name) fun _ => True :=
  .of_looks (fun s => looks_getNode s name) fun _ _ _ _ => trivial

lemma keeps_getRole (name : Text) : Keeps I (getRole name) fun _ => True :=
  .of_looks (fun s => looks_getRole s name) fun _ _ _ _ => trivial

lemma keeps_getEnvironment (name : Text) : Keeps I (getEnvironment name) fun _ => True :=
  .of_looks (fun s => looks_getEnvironment s name) fun _ _ _ _ => trivial

lemma leads_after {α β : Type} {x : Handler α} {f : α → Handler β} {Q : α → Prop} (hx : Keeps (Idle env) x Q)
    (hf : ∀ a, Q a → Leads (Idle env) (Agreeing env) (f a)) : Leads (Idle env) (Agreeing env) (x >>= f) :=
  .after_keeps hx (fun _ => Idle.agreeing) hf

lemma leads_check {α β : Type} {x : Except Actors.Refusal α} {f : α → Handler β}
    (hf : ∀ a, Leads (Idle env) (Agreeing env) (f a)) : Leads (Idle env) (Agreeing env) (check x >>= f) :=
  leads_after (keeps_check x) fun a _ => hf a

lemma leads_get {β : Type} {f : Server → Handler β} (hf : ∀ s, Leads (Idle env) (Agreeing env) (f s)) :
    Leads (Idle env) (Agreeing env) (get >>= f) := leads_after Keeps.get fun s _ => hf s

lemma nodeCreate_leads (body : Body) : Leads (Idle env) (Agreeing env) (nodeCreate env op body) :=
  leads_check fun _ => leads_check fun _ => leads_check fun _ =>
    leads_get fun _ => leads_check fun _ => leads_get fun _ =>
    leads_check fun n => (saveNode_leads n).bind_pure _

lemma nodePut_leads (name : Text) (body : Body) : Leads (Idle env) (Agreeing env) (nodePut env op name body) :=
  leads_check fun _ => leads_check fun _ => leads_after (keeps_getNode _) fun _ _ =>
    leads_after (keeps_attain _) fun _ _ => leads_check fun _ => leads_check fun n =>
    (saveNode_leads n).bind_pure _

lemma nodeDelete_leads (name : Text) : Leads (Idle env) (Agreeing env) (nodeDelete env op name) :=
  leads_check fun _ => leads_after (keeps_getNode _) fun n _ =>
    leads_after (deleteNode_leads n).keeps fun _ _ _ hs => hs.agreeing

lemma roleCreate_leads (body : Body) : Leads (Idle env) (Agreeing env) (roleCreate env op body) :=
  leads_check fun _ => leads_check fun _ => leads_check fun _ =>
    leads_get fun _ => leads_check fun _ => leads_get fun _ =>
    leads_after (keeps_attain _) fun r _ => (saveRole_leads r).bind_pure _

lemma rolePut_leads (name : Text) (body : Body) : Leads (Idle env) (Agreeing env) (rolePut env op name body) :=
  leads_after (keeps_getRole _) fun _ _ => leads_check fun _ => leads_check fun _ =>
    leads_after (keeps_attain _) fun _ _ => leads_check fun _ => leads_check fun r =>
    (saveRole_leads r).bind_pure _

lemma roleDelete_leads (name : Text) : Leads (Idle env) (Agreeing env) (roleDelete env op name) :=
  leads_after (keeps_getRole _) fun r _ => leads_check fun _ =>
    leads_after (deleteRole_leads r).keeps fun _ _ _ hs => hs.agreeing

lemma environmentCreate_leads (body : Body) : Leads (Idle env) (Agreeing env) (environmentCreate env op body) :=
  leads_check fun _ => leads_check fun _ => leads_check fun _ =>
    leads_get fun _ => leads_check fun _ => leads_get fun _ =>
    leads_after (keeps_attain _) fun e _ => (saveEnvironment_leads e).bind_pure _

lemma keeps_renameEnvironment (envName jsonName : Text) (data : JsonMap) :
    Keeps (Idle env) (renameEnvironment envName jsonName data) fun _ => True := by
  refine Keeps.get.bind fun _ _ => (keeps_check _).bind fun _ _ => Keeps.get.bind fun _ _ =>
    (keeps_attain _).bind fun e _ => Keeps.get.bind fun t _ => ?_
  cases findEnvironment t envName with
  | none => exact Keeps.pure trivial
  | some old => exact (quietly_keeps (deleteEnvironment_leads old)).bind fun _ _ => Keeps.pure trivial

lemma environmentPut_leads (name : Text) (body : Body) :
    Leads (Idle env) (Agreeing env) (environmentPut env op name body) := by
  refine leads_after (keeps_getEnvironment _) fun e _ => leads_check fun _ => leads_check fun _ =>
    leads_check fun data => leads_check fun jsonName => ?_
  refine leads_after (Q := fun _ => True) ?_ fun e _ => (saveEnvironment_leads e).bind_pure _
  split
  · exact keeps_renameEnvironment _ _ _
  · exact (keeps_attain _).mono fun _ _ => trivial

lemma environmentDelete_leads (name : Text) : Leads (Idle env) (Agreeing env) (environmentDelete env op name) :=
  leads_after (keeps_getEnvironment _) fun e _ => leads_check fun _ => leads_check fun _ =>
    leads_after (deleteEnvironment_leads e).keeps fun _ _ _ hs => hs.agreeing

end

end Goiardi.Indexing
