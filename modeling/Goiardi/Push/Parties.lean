import Goiardi.Base.Interleaving
import Goiardi.Push.Finality

/-! The parties of one push job over a store that copies: the starter, the loop that takes the acknowledgements and the
goroutine that saves them, and one request for each node that reports. Each step reads or writes one record. -/

namespace Goiardi.Push

open Store Validation List Option

structure Net where
  store : Store
  sent : Bool
  srCh : List ShoveyRun
  closed : Bool

structure NodeReport where
  now : ℤ
  nodeName : Text
  srData : JsonMap

def NodeReport.status (r : NodeReport) : Option Text :=
  match lookupField r.srData "status" with
  | .str t => some t
  | _ => none

inductive Party
  | writing (now : ℤ) (mine : Shovey) (todo : List ShoveyRun)
  | saving (now : ℤ) (mine : Shovey)
  | acking (todo : List (ℤ × Text))
  | savingAcks
  | reporting (r : NodeReport)
  | holding (now : ℤ) (sr : ShoveyRun)
  | notifying (now : ℤ)
  | checking (now : ℤ) (job : Shovey) (todo : List Text) (c : ℕ)
  | finished

namespace Party

def countRun (c : ℕ) : Option ShoveyRun → ℕ
  | some sr => if Final sr.status then c + 1 else c
  | none => c

def next (net : Net) : Party → Net × Party
  | writing now mine (sr :: todo) => ({ net with store := net.store.saveRun sr }, .writing now mine todo)
  | writing now mine [] => ({ net with sent := true }, .saving now mine)
  | saving now mine => ({ net with store := net.store.save now { mine with status := running } }, .finished)
  -- acknowledgements and requests come after the query
  | acking todo =>
    if net.sent = false then (net, .acking todo)
    else match todo with
      | [] => ({ net with closed := true }, .finished)
      | (now, a) :: todo =>
        if a = [] then (net, .acking todo)
        else match net.store.runs.lookup a with
          | none => (net, .acking todo)
          | some sr => ({ net with srCh := net.srCh ++ [{ sr with ackTime := now }] }, .acking todo)
  | savingAcks =>
    match net.srCh with
    | [] => (net, if net.closed then .finished else .savingAcks)
    | sr :: rest => ({ net with store := net.store.saveRun sr, srCh := rest }, .savingAcks)
  | reporting r =>
    if net.sent = false then (net, .reporting r)
    else match net.store.runs.lookup r.nodeName with
      | none => (net, .finished)
      | some sr => (net, .holding r.now (updated r.now sr r.srData))
  | holding now sr => ({ net with store := net.store.saveRun sr }, .notifying now)
  | notifying now => (net, .checking now net.store.job net.store.job.nodeNames 0)
  | checking now job (n :: todo) c => (net, .checking now job todo (countRun c (net.store.runs.lookup n)))
  | checking now job [] c =>
    if c = job.nodeNames.length then
      ({ net with store := net.store.save now { job with status := complete } }, .finished)
    else (net, .finished)
  | finished => (net, .finished)

def begin (now : ℤ) (up : Text → Bool) (job : Shovey) (acks : List (ℤ × Text)) (reports : List NodeReport) :
    Pool Net Party where
  shared := ⟨.empty job, false, [], false⟩
  threads := .writing now job (startRuns now up job) :: .acking acks :: .savingAcks :: reports.map .reporting

def isFinished : Party → Bool
  | finished => true
  | _ => false

def disturbs (net : Net) : Party → Party → Bool
  | holding _ sr, savingAcks => net.srCh.any fun c => c.nodeName = sr.nodeName
  | saving _ _, _ => net.store.job.status = complete
  | _, _ => false

def Apart (net : Net) (t u : Party) : Prop := disturbs net t u = false

instance (net : Net) (t u : Party) : Decidable (Apart net t u) := inferInstanceAs (Decidable (_ = false))

section

-- the nodes of the job, those that are up, and what they report
variable (names : List Text) (up : Text → Bool) (reported : Text → Text)

def Expected (n : Text) (status : Option Text) : Prop :=
  status = some (firstStatus up n) ∨ up n = true ∧ status = some (reported n)

structure Sound (net : Net) : Prop where
  job : net.store.job.nodeNames = names
  queued : ∀ c ∈ net.srCh, net.sent = true
  statuses : net.sent = true → ∀ n ∈ names, Expected up reported n (statusOf net.store.runs n)

def Rely (net : Net) : Party → Prop
  | writing _ mine todo => net.sent = false ∧ mine.nodeNames = names ∧
      (∀ sr ∈ todo, sr.status = firstStatus up sr.nodeName) ∧
      ∀ n ∈ names, statusOf net.store.runs n = some (firstStatus up n) ∨ n ∈ todo.map ShoveyRun.nodeName
  | saving _ mine => mine.nodeNames = names
  | savingAcks => ∀ c ∈ net.srCh, statusOf net.store.runs c.nodeName = some c.status
  | reporting r => r.nodeName ∈ names ∧ up r.nodeName = true ∧
      lookupField r.srData "status" = .str (reported r.nodeName)
  | holding _ sr => net.sent = true ∧ sr.nodeName ∈ names ∧ up sr.nodeName = true ∧ sr.status = reported sr.nodeName
  | checking _ job todo _ => job.nodeNames = names ∧ todo ⊆ names
  | _ => True

def starts : Party → Bool
  | writing _ _ _ => true
  | _ => false

def OneStarter (t u : Party) : Prop := ¬ (t.starts = true ∧ u.starts = true)

def Pends (n : Text) : Party → Prop
  | reporting r => r.nodeName = n
  | holding _ sr => sr.nodeName = n
  | _ => False

def Completes : Party → Prop
  | notifying _ => True
  | checking _ _ todo c => c + todo.length = names.length
  | _ => False

structure Awaited (p : Pool Net Party) : Prop where
  reports : ∀ n ∈ names, up n = true →
    p.shared.sent = true ∧ statusOf p.shared.store.runs n = some (reported n) ∨ p.Any (Pends n)
  completion : (∃ n, p.Any (Pends n)) ∨ p.shared.store.job.status = complete ∨ p.Any (Completes names)

end

section

variable {names : List Text} {up : Text → Bool} {reported : Text → Text} {net : Net} {t u : Party}

def written (n : Text) : Party → Option Text
  | writing _ _ (sr :: _) => if n = sr.nodeName then some sr.status else none
  | holding _ sr => if n = sr.nodeName then some sr.status else none
  | _ => none

def sends : Party → Bool
  | writing _ _ [] => true
  | _ => false

def saves : Party → Bool
  | saving _ _ => true
  | _ => false

structure Effect (names : List Text) (net net' : Net) (t : Party) : Prop where
  status : ∀ n, statusOf net'.store.runs n = (written n t).or (statusOf net.store.runs n)
  job : net'.store.job.nodeNames = names
  sent : net'.sent = (net.sent || t.sends)
  queue : ∀ c ∈ net'.srCh, c ∈ net.srCh ∨
    net.sent = true ∧ statusOf net.store.runs c.nodeName = some c.status ∧ ∀ n, written n t = none
  complete : t.saves = false → net.store.job.status = complete → net'.store.job.status = complete

lemma Effect.idle (hs : Sound names up reported net) (hw : ∀ n, written n t = none) (ht : t.sends = false) :
    Effect names net net t where
  status n := by rw [hw n, none_or]
  job := hs.job
  sent := by rw [ht, Bool.or_false]
  queue c hc := .inl hc
  complete _ h := h

lemma statusOf_saveRun (s : Store) (sr : ShoveyRun) (n : Text) :
    statusOf (s.saveRun sr).runs n = (if n = sr.nodeName then some sr.status else none).or (statusOf s.runs n) := by
  rw [saveRun, statusOf_insert]
  split <;> rfl

lemma next_effect (hs : Sound names up reported net) (ht : Rely names up reported net t) :
    Effect names net (next net t).1 t := by
  cases t with
  | writing now mine todo =>
    cases todo with
    | nil => exact ⟨fun _ => rfl, hs.job, (Bool.or_true _).symm, fun c hc => .inl hc, fun _ h => h⟩
    | cons sr todo =>
      exact ⟨statusOf_saveRun net.store sr, hs.job, (Bool.or_false _).symm, fun c hc => .inl hc, fun _ h => h⟩
  | saving now mine => exact ⟨fun _ => rfl, ht, (Bool.or_false _).symm, fun c hc => .inl hc, fun h => nomatch h⟩
  | holding now sr =>
    exact ⟨statusOf_saveRun net.store sr, hs.job, (Bool.or_false _).symm, fun c hc => .inl hc, fun _ h => h⟩
  | acking todo =>
    have hi : Effect names net net (acking todo) := .idle hs (fun _ => rfl) rfl
    simp only [next]
    split
    · exact hi
    · next hsn =>
      replace hsn : net.sent = true := by simpa using hsn
      split
      · exact ⟨hi.status, hi.job, hi.sent, hi.queue, hi.complete⟩
      · next now a todo =>
        split
        · exact hi
        · split
          · exact hi
          · next sr hsr =>
            refine ⟨hi.status, hi.job, hi.sent, fun c hc => ?_, hi.complete⟩
            obtain hc | hc := mem_append.mp hc
            · exact .inl hc
            · rw [mem_singleton.mp hc, statusOf, net.store.named a sr hsr, hsr]
              exact .inr ⟨hsn, rfl, fun _ => rfl⟩
  | savingAcks =>
    cases hq : net.srCh with
    | nil =>
      simp only [next, hq]
      exact .idle hs (fun _ => rfl) rfl
    | cons sr rest =>
      simp only [next, hq]
      refine ⟨fun n => ?_, hs.job, (Bool.or_false _).symm, fun c hc => .inl (hq ▸ .tail _ hc), fun _ h => h⟩
      -- the copy has the status that the run still has
      have hnn : written n savingAcks = none := rfl
      rw [statusOf_saveRun, hnn, none_or]
      split
      · next hn => rw [hn, ht sr (hq ▸ .head _), some_or]
      · rw [none_or]
  | reporting r =>
    have hi : Effect names net net (reporting r) := .idle hs (fun _ => rfl) rfl
    simp only [next]
    split
    · exact hi
    · split <;> exact hi
  | checking now job todo c =>
    have hi : Effect names net net (checking now job todo c) := .idle hs (fun _ => rfl) rfl
    cases todo with
    | cons m todo => exact hi
    | nil =>
      simp only [next]
      split
      · exact ⟨hi.status, ht.1, hi.sent, hi.queue, fun _ _ => rfl⟩
      · exact hi
  | notifying | finished => exact .idle hs (fun _ => rfl) rfl

lemma written_eq_none (hs : t.starts = false) (hh : ∀ now sr, t ≠ holding now sr) (n : Text) : written n t = none := by
  cases t with
  | writing now mine todo => cases hs
  | holding now sr => exact absurd rfl (hh now sr)
  | _ => rfl

lemma Effect.same {net' : Net} (h : Effect names net net' t) (hw : ∀ n, written n t = none) (n : Text) :
    statusOf net'.store.runs n = statusOf net.store.runs n := by
  rw [h.status n, hw n, none_or]

lemma Effect.sound {net' : Net} (h : Effect names net net' t) (hs : Sound names up reported net)
    (ht : Rely names up reported net t) : Sound names up reported net' := by
  refine ⟨h.job, fun c hc => ?_, fun hsn n hn => ?_⟩
  · have ho : net.sent = true := (h.queue c hc).elim (hs.queued c) fun h => h.1
    rw [h.sent, ho, Bool.true_or]
  · cases t with
    | writing now mine todo =>
      obtain ⟨hnt, -, -, hr⟩ := ht
      cases todo with
      | nil =>
        rw [h.same (fun _ => rfl)]
        exact .inl ((hr n hn).resolve_right not_mem_nil)
      | cons sr todo =>
        rw [h.sent, hnt] at hsn
        cases hsn
    | holding now sr =>
      obtain ⟨ho, -, hup, hst⟩ := ht
      rw [h.status n, written]
      split
      · next heq =>
        subst heq
        exact .inr ⟨hup, by rw [hst, some_or]⟩
      · rw [none_or]
        exact hs.statuses ho n hn
    | _ =>
      have hsm : net'.sent = net.sent := h.sent.trans (Bool.or_false _)
      rw [h.same (fun _ => rfl)]
      exact hs.statuses (hsm ▸ hsn) n hn

lemma next_rely (hs : Sound names up reported net) (ht : Rely names up reported net t) :
    Rely names up reported (next net t).1 (next net t).2 := by
  have he := next_effect hs ht
  cases t with
  | writing now mine todo =>
    obtain ⟨hnt, hm, hf, hr⟩ := ht
    cases todo with
    | nil => exact hm
    | cons sr todo =>
      refine ⟨hnt, hm, fun sr' h' => hf sr' (.tail _ h'), fun n hn => ?_⟩
      rw [he.status n, written]
      split
      · next heq => exact .inl (by rw [heq, hf sr (.head _), some_or])
      · next hne =>
        rw [none_or]
        refine (hr n hn).imp_right fun hmm => ?_
        exact (mem_cons.mp hmm).resolve_left hne
  | saving | holding | finished => trivial
  | acking todo =>
    simp only [next]
    split
    · trivial
    · split
      · trivial
      · split
        · trivial
        · split <;> trivial
  | savingAcks =>
    cases hq : net.srCh with
    | nil =>
      simp only [next, hq]
      split
      · trivial
      · exact ht
    | cons sr rest =>
      have hnx : next net savingAcks = ({ net with store := net.store.saveRun sr, srCh := rest }, .savingAcks) := by
        simp only [next, hq]
      rw [hnx] at he ⊢
      intro c hc
      rw [he.same fun _ => rfl]
      exact ht c (hq ▸ .tail _ hc)
  | reporting r =>
    obtain ⟨hn, hup, hd⟩ := ht
    simp only [next]
    split
    · exact ⟨hn, hup, hd⟩
    · next hsn =>
      split
      · trivial
      · next sr hsr =>
        have hnm : (updated r.now sr r.srData).nodeName = r.nodeName :=
          (updated_spec r.now sr r.srData).1.trans (net.store.named r.nodeName sr hsr)
        have hst : (updated r.now sr r.srData).status = reported r.nodeName := by
          rw [(updated_spec r.now sr r.srData).2, hd]
        refine ⟨by simpa using hsn, ?_, ?_, ?_⟩
        · rwa [hnm]
        · rwa [hnm]
        · rw [hst, hnm]
  | notifying now => exact ⟨hs.job, by rw [hs.job]; exact fun _ h => h⟩
  | checking now job todo c =>
    cases todo with
    | nil =>
      simp only [next]
      split <;> trivial
    | cons m todo => exact ⟨ht.1, fun n hn => ht.2 (.tail _ hn)⟩

lemma Effect.other {net' : Net} (h : Effect names net net' t) (hs : Sound names up reported net)
    (ht : Rely names up reported net t) (hu : Rely names up reported net u) (hon : OneStarter t u)
    (ha : Apart net t u) : Rely names up reported net' u := by
  have hg : net.sent = true → net'.sent = true := fun hse => by rw [h.sent, hse, Bool.true_or]
  cases u with
  | writing now mine todo =>
    obtain ⟨hnt, hm, hf, hr⟩ := hu
    have hst : t.starts = false := Bool.eq_false_iff.mpr fun hst => hon ⟨hst, rfl⟩
    have hsn : t.sends = false := by
      cases t with
      | writing => cases hst
      | _ => rfl
    have hh : ∀ now sr, t ≠ holding now sr := by
      rintro now sr rfl
      exact Bool.false_ne_true (hnt.symm.trans ht.1)
    refine ⟨by rw [h.sent, hnt, hsn, Bool.false_or], hm, hf, fun n hn => ?_⟩
    rw [h.same (written_eq_none hst hh)]
    exact hr n hn
  | savingAcks =>
    intro c hc
    obtain ho | ⟨-, hss, hw⟩ := h.queue c hc
    · rw [h.status, hu c ho]
      cases t with
      | writing now mine todo => exact absurd (hs.queued c ho) (by rw [ht.1]; exact Bool.false_ne_true)
      | holding now sr =>
        have hne : c.nodeName ≠ sr.nodeName := by
          have := any_eq_false.mp ha c ho
          simpa using this
        rw [written, if_neg hne, none_or]
      | _ => rfl
    · rw [h.same hw, hss]
  | holding now sr => exact ⟨hg hu.1, hu.2⟩
  | saving | acking | reporting | notifying | checking | finished => exact hu

lemma next_starts (h : (next net t).2.starts = true) : t.starts = true := by
  cases t with
  | writing => rfl
  | saving | holding | notifying | finished => cases h
  | acking todo =>
    simp only [next] at h
    split at h
    · cases h
    · split at h
      · cases h
      · split at h
        · cases h
        · split at h <;> cases h
  | savingAcks =>
    simp only [next] at h
    split at h
    · split at h <;> cases h
    · cases h
  | reporting r =>
    simp only [next] at h
    split at h
    · cases h
    · split at h <;> cases h
  | checking now job todo c =>
    cases todo with
    | nil =>
      simp only [next] at h
      split at h <;> cases h
    | cons => cases h

lemma next_preserves : Pool.Preserves next Apart (Sound names up reported) (Rely names up reported) OneStarter where
  symm _ _ h hp := h ⟨hp.2, hp.1⟩
  own _ _ hs ht := ⟨(next_effect hs ht).sound hs ht, next_rely hs ht⟩
  other _ _ _ hs ht hu ho ha :=
    ⟨(next_effect hs ht).other hs ht hu ho ha, fun hp => ho ⟨next_starts hp.1, hp.2⟩⟩

end

section

variable {names : List Text} {up : Text → Bool} {reported : Text → Text} {net : Net} {p : Pool Net Party} {t : Party}

lemma pends_next {n : Text} (hs : Sound names up reported net) (ht : Rely names up reported net t) (h : Pends n t) :
    Pends n (next net t).2 ∨ ∃ now sr, t = holding now sr ∧ sr.nodeName = n := by
  cases t with
  | holding now sr => exact .inr ⟨now, sr, rfl, h⟩
  | reporting r =>
    left
    simp only [next]
    split
    · exact h
    · next hsn =>
      have he := hs.statuses (by simpa using hsn) r.nodeName ht.1
      split
      · next hn =>
        have hst : statusOf net.store.runs r.nodeName = none := by rw [statusOf, hn, map_none]
        rw [hst] at he
        obtain h | ⟨-, h⟩ := he <;> cases h
      · next sr hsr =>
        rw [← h]
        exact (updated_spec r.now sr r.srData).1.trans (net.store.named r.nodeName sr hsr)
  | _ => cases h

variable (hfinal : ∀ n ∈ names, up n = true → Final (reported n))

include hfinal in
lemma done_of_reports (hs : Sound names up reported p.shared) (hp : Awaited names up reported p)
    (hup : ∃ n ∈ names, up n = true) (hnn : ¬ ∃ n, p.Any (Pends n)) (n : Text) (hn : n ∈ names) :
    Done p.shared.store.runs n := by
  have hsn : p.shared.sent = true := by
    obtain ⟨m, hm, hum⟩ := hup
    exact ((hp.reports m hm hum).resolve_right fun h => hnn ⟨m, h⟩).1
  cases hun : up n with
  | true =>
    obtain ⟨-, hst⟩ := (hp.reports n hn hun).resolve_right fun h => hnn ⟨n, h⟩
    exact ⟨_, hst, hfinal n hn hun⟩
  | false =>
    obtain h | ⟨h, -⟩ := hs.statuses hsn n hn
    · refine ⟨_, h, ?_⟩
      rw [firstStatus, if_neg (by simp [hun])]
      decide
    · rw [hun] at h
      cases h

lemma countRun_of_done {runs : Runs} {n : Text} (h : Done runs n) (c : ℕ) : countRun c (runs.lookup n) = c + 1 := by
  obtain ⟨t, ht, hfinal⟩ := h
  obtain ⟨sr, hsr, rfl⟩ := map_eq_some_iff.mp ht
  rw [hsr, countRun, if_pos hfinal]

lemma completes_next (hs : Sound names up reported net) (ht : Rely names up reported net t)
    (hd : ∀ n ∈ names, Done net.store.runs n) (h : Completes names t) :
    (next net t).1.store.job.status = complete ∨ Completes names (next net t).2 := by
  cases t with
  | notifying now =>
    right
    simp only [next, Completes, hs.job, Nat.zero_add]
  | checking now job todo c =>
    cases todo with
    | nil =>
      have hc : c = job.nodeNames.length := by rw [ht.1]; exact h
      left
      simp only [next, if_pos hc, save]
    | cons n todo =>
      right
      have hn := hd n (ht.2 (.head _))
      have hcn : c + (todo.length + 1) = names.length := h
      simp only [next, Completes, countRun_of_done hn]
      omega
  | _ => cases h

lemma Effect.reports {net' : Net} (h : Effect names net net' t) (ht : Rely names up reported net t)
    (hs : net.sent = true) {n : Text} (hst : statusOf net.store.runs n = some (reported n)) :
    net'.sent = true ∧ statusOf net'.store.runs n = some (reported n) := by
  refine ⟨by rw [h.sent, hs, Bool.true_or], ?_⟩
  rw [h.status n, hst]
  cases t with
  | writing now mine todo => exact absurd (hs.symm.trans ht.1) (by decide)
  | holding now sr =>
    rw [written]
    split
    · next hn => rw [hn, ht.2.2.2, some_or]
    · rfl
  | _ => rfl

lemma status_ne_complete {i : ℕ} (hi : p.threads[i]? = some t) (hm : 1 < p.threads.length)
    (hq : p.Quiet Apart i) (h : t.saves = true) : p.shared.store.job.status ≠ complete := by
  obtain ⟨j, hj, hlt⟩ : ∃ j, j ≠ i ∧ j < p.threads.length := by
    by_cases h0 : i = 0
    · exact ⟨1, by omega, hm⟩
    · exact ⟨0, by omega, by omega⟩
  have ha := hq j t _ hj hi (List.getElem?_eq_getElem hlt)
  cases t with
  | saving now mine => simpa [Apart, disturbs] using ha
  | _ => cases h

include hfinal in
lemma Awaited.step (hp : Awaited names up reported p) (hh : p.Holds (Sound names up reported) (Rely names up reported)
    OneStarter) (hup : ∃ n ∈ names, up n = true) (hm : 1 < p.threads.length) {i : ℕ} (hq : p.Quiet Apart i) :
    Awaited names up reported (p.step next i) := by
  cases hi : p.threads[i]? with
  | none =>
    rw [Pool.step_none hi]
    exact hp
  | some t =>
    have hs := hh.shared
    have ht := hh.each i t hi
    have he := next_effect hs ht
    have hsh : (p.step next i).shared = (next p.shared t).1 := by rw [Pool.step_some hi]
    constructor
    · intro n hn hun
      rw [hsh]
      obtain ⟨hsn, hst⟩ | hpn := hp.reports n hn hun
      · exact .inl (he.reports ht hsn hst)
      · obtain hpt | hpn := hpn.step next hi
        · obtain hpt | ⟨now, sr, rfl, rfl⟩ := pends_next hs ht hpt
          · exact .inr (Pool.any_step_self hi hpt)
          · refine .inl ⟨by rw [he.sent, ht.1, Bool.true_or], ?_⟩
            rw [he.status, written, if_pos rfl, ht.2.2.2, some_or]
        · exact .inr hpn
    · rw [hsh]
      by_cases hnn : ∃ n, p.Any (Pends n)
      · obtain ⟨n, hpn⟩ := hnn
        obtain hpt | hpn := hpn.step next hi
        · obtain hpt | ⟨now, sr, rfl, rfl⟩ := pends_next hs ht hpt
          · exact .inl ⟨n, Pool.any_step_self hi hpt⟩
          · exact .inr (.inr (Pool.any_step_self hi trivial))
        · exact .inl ⟨n, hpn⟩
      · obtain hc | hc := hp.completion.resolve_left hnn
        · have hsv : t.saves = false :=
            Bool.eq_false_iff.mpr fun h => status_ne_complete hi hm hq h hc
          exact .inr (.inl (he.complete hsv hc))
        · obtain hct | hc := hc.step next hi
          · obtain h | h := completes_next hs ht (done_of_reports hfinal hs hp hup hnn) hct
            · exact .inr (.inl h)
            · exact .inr (.inr (Pool.any_step_self hi h))
          · exact .inr (.inr hc)

include hfinal in
lemma Awaited.run (hp : Awaited names up reported p) (hh : p.Holds (Sound names up reported) (Rely names up reported)
    OneStarter) (hup : ∃ n ∈ names, up n = true) (hm : 1 < p.threads.length) {schedule : List ℕ}
    (hq : p.QuietRun next Apart schedule) : Awaited names up reported (p.run next schedule) := by
  induction schedule generalizing p with
  | nil => exact hp
  | cons i schedule ih =>
    refine ih (hp.step hfinal hh hup hm hq.1) (hh.step next_preserves hq.1) ?_ hq.2
    rwa [Pool.length_threads_step]

end

section

def reportedBy (reports : List NodeReport) (n : Text) : Text :=
  ((reports.find? fun r => r.nodeName = n).bind NodeReport.status).getD []

variable {now : ℤ} {up : Text → Bool} {job : Shovey} {acks : List (ℤ × Text)} {reports : List NodeReport}

lemma reportedBy_eq (hn : (reports.map NodeReport.nodeName).Nodup) {r : NodeReport} (hr : r ∈ reports) {t : Text}
    (ht : r.status = some t) : reportedBy reports r.nodeName = t := by
  have hfn : reports.find? (fun r' => r'.nodeName = r.nodeName) = some r := by
    cases hf : reports.find? fun r' => r'.nodeName = r.nodeName with
    | none => simpa using List.find?_eq_none.mp hf r hr
    | some r' =>
      have hnm := List.find?_some hf
      rw [inj_on_of_nodup_map hn (mem_of_find?_eq_some hf) hr (of_decide_eq_true hnm)]
  rw [reportedBy, hfn, bind_some, ht, getD_some]

lemma begin_holds {reported : Text → Text} (hrp : ∀ r ∈ reports, r.nodeName ∈ job.nodeNames ∧
      up r.nodeName = true ∧ lookupField r.srData "status" = .str (reported r.nodeName)) :
    (begin now up job acks reports).Holds (Sound job.nodeNames up reported) (Rely job.nodeNames up reported)
      OneStarter := by
  have hl : ∀ {i t}, (begin now up job acks reports).threads[i + 1]? = some t →
      t.starts = false ∧ Rely job.nodeNames up reported (begin now up job acks reports).shared t := by
    intro i t h
    have hm : t ∈ .acking acks :: .savingAcks :: reports.map reporting := List.mem_of_getElem? (i := i) h
    simp only [List.mem_cons, List.mem_map] at hm
    obtain rfl | rfl | ⟨r, hr, rfl⟩ := hm
    · exact ⟨rfl, trivial⟩
    · exact ⟨rfl, fun c hc => absurd hc List.not_mem_nil⟩
    · exact ⟨rfl, hrp r hr⟩
  refine ⟨⟨rfl, fun c hc => absurd hc not_mem_nil, fun h => by cases h⟩, fun i t h => ?_, fun i j t u hij hi hj hp => ?_⟩
  · cases i with
    | zero =>
      obtain rfl : writing now job (startRuns now up job) = t := by simpa [begin] using h
      refine ⟨rfl, rfl, startRuns_status now up job, fun n hn => ?_⟩
      exact .inr ((mem_startRuns now up job n).mpr hn)
    | succ i => exact (hl h).2
  · -- the starter is the first thread, so one of two different threads is not it
    cases i with
    | succ i => exact Bool.false_ne_true ((hl hi).1.symm.trans hp.1)
    | zero =>
      cases j with
      | zero => exact hij rfl
      | succ j => exact Bool.false_ne_true ((hl hj).1.symm.trans hp.2)

/-- If no report is written while an older copy of the run waits to be saved, and the starter does not write its copy
over a job that is complete, then every report stays and the job is complete at the end, if some node is up. -/
theorem reports_kept (now : ℤ) (up : Text → Bool) (job : Shovey) (acks : List (ℤ × Text)) (reports : List NodeReport)
    (hup : ∃ n ∈ job.nodeNames, up n = true)
    (honce : (reports.map NodeReport.nodeName).Perm (job.nodeNames.filter up).dedup)
    (hfinal : ∀ r ∈ reports, ∃ t, r.status = some t ∧ Final t) (schedule : List ℕ)
    (hquiet : (begin now up job acks reports).QuietRun next Apart schedule)
    (hfin : ∀ t ∈ ((begin now up job acks reports).run next schedule).threads, t.isFinished = true) :
    let last := ((begin now up job acks reports).run next schedule).shared.store
    (∀ r ∈ reports, statusOf last.runs r.nodeName = r.status) ∧
      (∀ n ∈ job.nodeNames, up n = false → statusOf last.runs n = some "down".toList) ∧ last.job.status = complete := by
  have hnd : (reports.map NodeReport.nodeName).Nodup := honce.nodup_iff.mpr (nodup_dedup _)
  have hnm : ∀ n, n ∈ reports.map NodeReport.nodeName ↔ n ∈ job.nodeNames ∧ up n = true := by
    intro n
    rw [honce.mem_iff, mem_dedup, mem_filter]
  have hs : ∀ r ∈ reports, r.status = some (reportedBy reports r.nodeName) ∧
      Final (reportedBy reports r.nodeName) := by
    intro r hr
    obtain ⟨t, ht, hfinal⟩ := hfinal r hr
    rw [reportedBy_eq hnd hr ht]
    exact ⟨ht, hfinal⟩
  have hh : (begin now up job acks reports).Holds (Sound job.nodeNames up (reportedBy reports))
      (Rely job.nodeNames up (reportedBy reports)) OneStarter := by
    refine begin_holds fun r hr => ?_
    obtain ⟨hn, hu⟩ := (hnm r.nodeName).mp (mem_map_of_mem hr)
    refine ⟨hn, hu, ?_⟩
    have := (hs r hr).1
    unfold NodeReport.status at this
    split at this
    · next t ht =>
      cases this
      exact ht
    · cases this
  have hp : ∀ n ∈ job.nodeNames, up n = true → (begin now up job acks reports).Any (Pends n) := by
    intro n hn hu
    obtain ⟨r, hr, rfl⟩ := mem_map.mp ((hnm n).mpr ⟨hn, hu⟩)
    refine ⟨.reporting r, ?_, rfl⟩
    exact .tail _ (.tail _ (.tail _ (mem_map_of_mem hr)))
  have ha : Awaited job.nodeNames up (reportedBy reports) (begin now up job acks reports) := by
    refine ⟨fun n hn hu => .inr (hp n hn hu), .inl ?_⟩
    obtain ⟨n, hn, hu⟩ := hup
    exact ⟨n, hp n hn hu⟩
  have hrr : ∀ n ∈ job.nodeNames, up n = true → Final (reportedBy reports n) := by
    intro n hn hu
    obtain ⟨r, hr, rfl⟩ := mem_map.mp ((hnm n).mpr ⟨hn, hu⟩)
    exact (hs r hr).2
  have hl := ha.run hrr hh hup (by simp [begin]) hquiet
  have hsn := (hh.run next_preserves schedule hquiet).shared
  -- nobody is left to write a report or to complete the job
  have hnb : ∀ {P : Party → Prop}, ¬ P .finished →
      ¬ ((begin now up job acks reports).run next schedule).Any P := by
    rintro P hP ⟨t, ht, hPt⟩
    have := hfin t ht
    cases t with
    | finished => exact hP hPt
    | _ => cases this
  have hrp := fun n hn hu => (hl.reports n hn hu).resolve_right (hnb id)
  refine ⟨fun r hr => ?_, fun n hn hu => ?_, ?_⟩
  · obtain ⟨hn, hu⟩ := (hnm r.nodeName).mp (mem_map_of_mem hr)
    rw [(hrp r.nodeName hn hu).2, (hs r hr).1]
  · obtain ⟨m, hm, hum⟩ := hup
    obtain h | ⟨h, -⟩ := hsn.statuses (hrp m hm hum).1 n hn
    · rw [h, firstStatus, if_neg (by simp [hu])]
    · rw [hu] at h
      cases h
  · exact (hl.completion.resolve_left (not_exists.mpr fun _ => hnb id)).resolve_right (hnb id)

section

open Backends (web db)

def webUp (n : Text) : Bool := n = web

def succeeds : NodeReport := ⟨3, web, [("status", .str "succeeded")]⟩

def twoNodes : Pool Net Party :=
  begin 1 webUp (submit 0 "1f0c" "chef-client" 300 "50%" [web, db]) [(2, web)] [succeeds]

def inTurn : List ℕ := [0, 0, 0, 0, 1, 1, 2, 2, 3, 3, 3, 3, 3, 3]

theorem reports_kept_in_turn :
    let last := (twoNodes.run next inTurn).shared.store
    (∀ r ∈ [succeeds], statusOf last.runs r.nodeName = r.status) ∧
      (∀ n ∈ [web, db], webUp n = false → statusOf last.runs n = some "down".toList) ∧ last.job.status = complete :=
  reports_kept 1 webUp (submit 0 "1f0c".toList "chef-client".toList 300 "50%".toList [web, db]) [(2, web)] [succeeds]
    ⟨web, by decide, by decide⟩ (by decide) (by simpa using ⟨"succeeded".toList, rfl, by decide⟩) inTurn
    (by decide +kernel) (by decide +kernel)

def noneUp : Pool Net Party :=
  begin 1 (fun _ => false) (submit 0 "1f0c" "chef-client" 300 "0" [web]) [] []

def staleRun : Pool Net Party := twoNodes.run next [0, 0, 0, 1, 3, 3, 2, 0, 3, 3, 3, 3, 1, 2]

def staleJob : Pool Net Party := twoNodes.run next [0, 0, 0, 1, 1, 2, 2, 3, 3, 3, 3, 3, 3, 0]

def unreported : Pool Net Party := noneUp.run next [0, 0, 0, 1, 2]

theorem reports_lost : ((∀ t ∈ staleRun.threads, t.isFinished = true) ∧
      statusOf staleRun.shared.store.runs web = some "created".toList ∧ staleRun.shared.store.job.status = running) ∧
    ((∀ t ∈ staleJob.threads, t.isFinished = true) ∧ statusOf staleJob.shared.store.runs web = some "succeeded".toList ∧
      staleJob.shared.store.job.status = running) ∧
    ((∀ t ∈ unreported.threads, t.isFinished = true) ∧ unreported.shared.store.job.status = running) := by
  decide +kernel

end

end

end Party

end Goiardi.Push
