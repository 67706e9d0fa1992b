import Goiardi.Dump.Import

/-! The file store in memory: uploads, imports and the deletion of hashes. -/

namespace Goiardi.Files

open Uploads Dump List AList Text
open Validation (Json)

/-- What can be read of a body, and the error that comes after it. -/
structure Reader where
  bytes : List UInt8
  ending : Text

def maxBytesReader (r : Reader) (limit : ℕ) : Reader :=
  if r.bytes.length ≤ limit then r else ⟨r.bytes.take limit, "http: request body too large"⟩

def readFull (r : Reader) (dataLength : ℕ) : Except Fault (List UInt8) := do
  demand (dataLength ≤ r.bytes.length) (refuse ("Only read " ++ formatNat r.bytes.length ++ " bytes (out of " ++
    formatNat dataLength ++ ", supposedly) from io.ReadCloser: " ++ r.ending))
  return r.bytes.take dataLength

def internalServerError : Fault → Fault
  | .refused e => .refused { e with status := 500 }
  | f => f

inductive FileCall
  | upload (chksum : Text) (body : Reader) (contentLength : ℕ)
  | importFiles (vs : List Json)
  | deleteHashes (fileHashes : List Text)

variable (setup : Setup) (objMaxSize : ℕ)

def upload (t : Table FileStore) (chksum : Text) (body : Reader) (contentLength : ℕ) :
    Except Fault (Table FileStore) := do
  demand (t.lookup chksum).isNone (.refused ⟨"File with checksum " ++ chksum ++ " already exists.", 200⟩)
  Except.mapError internalServerError do
    let data ← readFull (maxBytesReader body objMaxSize) contentLength
    let f ← newFile setup t chksum data
    return t.insert f.chksum f

-- an import ends at the first file that is refused, with the files before it stored
def importFiles (t : Table FileStore) : List Json → Table FileStore
  | [] => t
  | v :: vs =>
    match importFile setup t v with
    | .error _ => t
    | .ok t => importFiles t vs

def deleteHash (t : Table FileStore) (ff : Text) : Table FileStore :=
  match t.lookup ff with
  | none => t
  | some delFile => t.erase delFile.chksum

def call (t : Table FileStore) : FileCall → Table FileStore
  | .upload chksum body contentLength => (upload setup objMaxSize t chksum body contentLength).toOption.getD t
  | .importFiles vs => importFiles setup t vs
  | .deleteHashes fileHashes => fileHashes.foldl deleteHash t

def Addressed (t : Table FileStore) : Prop := ∀ k f, t.lookup k = some f → f.chksum = k ∧ setup.formats.md5 f.data = k

def Extends (t t' : Table FileStore) : Prop := ∀ k f, t.lookup k = some f → t'.lookup k = some f

variable {setup objMaxSize} {t t' : Table FileStore} {c : FileCall} {k : Text} {f f' : FileStore}

lemma addressed_insert {data : List UInt8} (h : Addressed setup t) (hf : newFile setup t k data = .ok f) :
    Addressed setup (t.insert f.chksum f) ∧ Extends t (t.insert f.chksum f) := by
  obtain ⟨_, hs, hf⟩ := bind_eq_ok hf
  obtain ⟨_, hm, hf⟩ := bind_eq_ok hf
  cases hf
  constructor
  · intro j f hj
    by_cases he : j = k
    · rw [he, lookup_insert] at hj
      cases hj
      exact ⟨he.symm, (demand_eq_ok hm).trans he.symm⟩
    · exact h j f (lookup_insert_ne he ▸ hj)
  · intro j f hj
    by_cases he : j = k
    · -- the file is there already, with the same bytes
      subst he
      rw [lookup_insert, demand_eq_ok hs f hj, ← (h j f hj).1]
    · rwa [lookup_insert_ne he]

lemma addressed_upload {body : Reader} {n : ℕ} (h : Addressed setup t)
    (hu : upload setup objMaxSize t k body n = .ok t') : Addressed setup t' ∧ Extends t t' := by
  obtain ⟨_, -, hu⟩ := bind_eq_ok hu
  obtain ⟨data, -, hu⟩ := bind_eq_ok (mapError_eq_ok_iff.mp hu)
  obtain ⟨f, hf, hu⟩ := bind_eq_ok hu
  cases hu
  exact addressed_insert h hf

lemma addressed_importFiles (h : Addressed setup t) (vs : List Json) :
    Addressed setup (importFiles setup t vs) ∧ Extends t (importFiles setup t vs) := by
  induction vs generalizing t with
  | nil => exact ⟨h, fun _ _ hf => hf⟩
  | cons v vs ih =>
    rw [importFiles]
    split
    · exact ⟨h, fun _ _ hf => hf⟩
    · next t' hi =>
      simp only [importFile, bind_eq_ok_iff] at hi
      obtain ⟨_, -, _, -, _, -, _, -, f, hf, hi⟩ := hi
      cases hi
      obtain ⟨ha, he⟩ := addressed_insert h hf
      exact ⟨(ih ha).1, fun k f hk => (ih ha).2 k f (he k f hk)⟩

lemma lookup_of_deleteHashes {fileHashes : List Text} (hk : (fileHashes.foldl deleteHash t).lookup k = some f) :
    t.lookup k = some f := by
  induction fileHashes generalizing t with
  | nil => exact hk
  | cons ff fileHashes ih =>
    have hd := ih hk
    rw [deleteHash] at hd
    split at hd
    · exact hd
    · next delFile _ =>
      by_cases he : k = delFile.chksum
      · rw [he, lookup_erase] at hd
        cases hd
      · rwa [lookup_erase_ne he] at hd

lemma addressed_call (h : Addressed setup t) (c : FileCall) : Addressed setup (call setup objMaxSize t c) ∧
    ∀ k f f', t.lookup k = some f → (call setup objMaxSize t c).lookup k = some f' → f' = f := by
  have hx {t' : Table FileStore} (he : Extends t t') (k : Text) (f f' : FileStore) (hf : t.lookup k = some f)
      (hf' : t'.lookup k = some f') : f' = f := Option.some.inj (hf'.symm.trans (he k f hf))
  cases c with
  | upload chksum body n =>
    rw [call]
    cases hu : upload setup objMaxSize t chksum body n with
    | error e => exact ⟨h, hx fun _ _ hf => hf⟩
    | ok t' => exact ⟨(addressed_upload h hu).1, hx (addressed_upload h hu).2⟩
  | importFiles vs => exact ⟨(addressed_importFiles h vs).1, hx (addressed_importFiles h vs).2⟩
  | deleteHashes fileHashes =>
    exact ⟨fun k f hf => h k f (lookup_of_deleteHashes hf), fun k f f' hf hf' =>
      Option.some.inj ((lookup_of_deleteHashes hf').symm.trans hf)⟩

lemma addressed_run (h : Addressed setup t) (calls : List FileCall) :
    Addressed setup (calls.foldl (call setup objMaxSize) t) := by
  induction calls generalizing t with
  | nil => exact h
  | cons c calls ih => exact ih (addressed_call h c).1

lemma lookup_run (h : Addressed setup t) {calls : List FileCall} (hk : t.lookup k = some f)
    (hs : ∀ p, p <+: calls → ((p.foldl (call setup objMaxSize) t).lookup k).isSome = true) :
    (calls.foldl (call setup objMaxSize) t).lookup k = some f := by
  induction calls generalizing t with
  | nil => exact hk
  | cons c calls ih =>
    obtain ⟨f', hf'⟩ := Option.isSome_iff_exists.mp (hs [c] ⟨calls, rfl⟩)
    obtain rfl := (addressed_call h c).2 k f f' hk hf'
    exact ih (addressed_call h c).1 hf' fun p hp => hs (c :: p) ((prefix_cons_inj c).mpr hp)

end Goiardi.Files
