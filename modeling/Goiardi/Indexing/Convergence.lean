import Goiardi.Indexing.FileIndex

/-! The document of one object while its index messages are handled by goroutines of their own, in any order.

A message carries the object as it was saved, without a number, and a deletion does not wait for the messages. -/

namespace Goiardi.Indexing

open Search

structure Tracked where
  stored : Option Indexable
  pending : List Indexable
  index : FileIndex

inductive Event
  | save (o : Indexable)
  | delete
  | process (n : ℕ)

section

variable (build : List Text → Option IdxDoc) (idx id : Text)

def Tracked.step (s : Tracked) : Event → Tracked
  | .save o => { s with stored := some o, pending := s.pending ++ [o] }
  | .delete => { s with stored := none, index := attempt s.index (deleteItem s.index idx id) }
  | .process n =>
    match s.pending[n]? with
    | none => s
    | some o => { s with pending := s.pending.eraseIdx n, index := saveItem s.index build o }

def Tracked.run (s : Tracked) (events : List Event) : Tracked := events.foldl (Tracked.step build idx id) s

def Tracked.Reflects (s : Tracked) : Prop :=
  match s.stored with
  | some o => ∃ d, build o.lines = some d ∧ document s.index idx id = some d
  | none => document s.index idx id = none

def Indexable.Suits (o : Indexable) : Prop := o.index = idx ∧ o.docID = id ∧ (build o.lines).isSome = true

def Tracked.InOrder (s : Tracked) : Event → Prop
  | .save o => o.Suits build idx id
  | .delete => s.pending = []
  | .process n => n = 0

def Tracked.OrderlyRun : Tracked → List Event → Prop
  | _, [] => True
  | s, e :: events => s.InOrder build idx id e ∧ OrderlyRun (s.step build idx id e) events

structure Tracked.UpToDate (s : Tracked) : Prop where
  suits : ∀ o ∈ s.pending, o.Suits build idx id
  idle : s.pending = [] → s.Reflects build idx id
  busy : s.pending ≠ [] → s.pending.getLast? = s.stored

end

variable {build : List Text → Option IdxDoc} {idx id : Text} {s : Tracked}

lemma Tracked.UpToDate.step (h : s.UpToDate build idx id) {e : Event} (he : s.InOrder build idx id e) :
    (s.step build idx id e).UpToDate build idx id := by
  cases e with
  | save o =>
    refine ⟨fun o' ho' => ?_, fun hn => absurd hn (by simp [Tracked.step]), fun _ => by simp [Tracked.step]⟩
    rcases List.mem_append.mp ho' with hm | hm
    · exact h.suits o' hm
    · rw [List.mem_singleton.mp hm]
      exact he
  | delete =>
    have hn : s.pending = [] := he
    refine ⟨h.suits, fun _ => ?_, fun hne => absurd hn hne⟩
    exact (document_deleteItem s.index idx id idx id).trans (if_pos ⟨rfl, rfl⟩)
  | process n =>
    obtain rfl : n = 0 := he
    cases hp : s.pending with
    | nil =>
      have hsm : s.step build idx id (.process 0) = s := by simp [Tracked.step, hp]
      rw [hsm]
      exact h
    | cons o rest =>
      have hst : s.step build idx id (.process 0) = ⟨s.stored, rest, saveItem s.index build o⟩ := by
        simp [Tracked.step, hp]
      have hl := h.busy (by simp [hp])
      rw [hp] at hl
      rw [hst]
      refine ⟨fun o' ho' => h.suits o' (by simp [hp, ho']), fun hr => ?_, fun hr => ?_⟩
      · obtain rfl : rest = [] := hr
        have hs : s.stored = some o := hl.symm
        simp only [Tracked.Reflects, hs]
        obtain ⟨rfl, rfl, hb⟩ := h.suits o (by simp [hp])
        obtain ⟨d, hd⟩ := Option.isSome_iff_exists.mp hb
        exact ⟨d, hd, by rw [document_saveItem, if_pos ⟨rfl, rfl⟩, hd, Option.getD_some]⟩
      · exact (List.getLast?_cons_of_ne_nil hr).symm.trans hl

lemma Tracked.UpToDate.run (h : s.UpToDate build idx id) (events : List Event)
    (hr : s.OrderlyRun build idx id events) : (s.run build idx id events).UpToDate build idx id := by
  induction events generalizing s with
  | nil => exact h
  | cons e events ih => exact ih (h.step hr.1) hr.2

theorem index_converges (build : List Text → Option IdxDoc) (idx id : Text) (s : Tracked) (events : List Event)
    (hidle : s.pending = []) (hstart : s.Reflects build idx id) (hrun : s.OrderlyRun build idx id events)
    (hend : (s.run build idx id events).pending = []) : (s.run build idx id events).Reflects build idx id := by
  have hs : s.UpToDate build idx id :=
    ⟨fun o ho => by simp [hidle] at ho, fun _ => hstart, fun hne => absurd hidle hne⟩
  exact (hs.run events hrun).idle hend

def plainDoc : List Text → Option IdxDoc
  | [] => none
  | lines => some ⟨.ok (.mk false []), .ok (Text.join ['\n'] lines)⟩

def webNode (platform : String) : Indexable := ⟨"node", "web", [("platform:" ++ platform).toList]⟩

def noDocuments : FileIndex := ⟨builtins.map fun idx => (idx, Collection.empty)⟩

theorem index_converges_web : (Tracked.run plainDoc "node" "web" ⟨none, [], noDocuments⟩
      [.save (webNode "debian"), .save (webNode "centos"), .process 0, .process 0, .delete]).Reflects
        plainDoc "node" "web" :=
  index_converges plainDoc "node" "web" ⟨none, [], noDocuments⟩ _ rfl rfl
    ⟨⟨rfl, rfl, rfl⟩, ⟨rfl, rfl, rfl⟩, rfl, rfl, rfl, trivial⟩ rfl

def textOf (s : Tracked) (idx id : Text) : Option Text := (document s.index idx id).bind fun d => d.docText.toOption

def late (events : List Event) : Tracked :=
  Tracked.run plainDoc "node" "web" ⟨none, [], noDocuments⟩ events

theorem index_diverges :
    ((late [.save (webNode "debian"), .save (webNode "centos"), .process 1, .process 0]).pending = [] ∧
      ¬ (late [.save (webNode "debian"), .save (webNode "centos"), .process 1, .process 0]).Reflects
        plainDoc "node" "web") ∧ (late [.save (webNode "debian"), .delete, .process 0]).pending = [] ∧
      ¬ (late [.save (webNode "debian"), .delete, .process 0]).Reflects plainDoc "node" "web" := by
  refine ⟨⟨rfl, ?_⟩, rfl, ?_⟩
  · rintro ⟨d, hd, hdc⟩
    cases hd
    have ht : textOf (late [.save (webNode "debian"), .save (webNode "centos"), .process 1, .process 0])
        "node" "web" = some "platform:debian" := by
      decide +kernel
    rw [textOf, hdc] at ht
    revert ht
    decide
  · intro hn
    have ht : textOf (late [.save (webNode "debian"), .delete, .process 0]) "node" "web" =
        some "platform:debian" := by
      decide +kernel
    have hn' : document (late [.save (webNode "debian"), .delete, .process 0]).index "node" "web" =
        none := hn
    rw [textOf, hn'] at ht
    cases ht

end Goiardi.Indexing
