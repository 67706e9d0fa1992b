import Goiardi.Authentication.Requests

/-! What an accepted request has gone through, and what its signed text tells about it. -/

namespace Goiardi.Authentication

open List

open Uploads (Fault demand demand_eq_ok_iff)

def layout (lib : Library) (apiVer method path cHash timestamp userID serverVersion : Text) : Text :=
  if apiVer = "1.3" then
    "Method:" ++ method ++ "\nPath:" ++ path ++ "\nX-Ops-Content-Hash:" ++ cHash ++
      "\nX-Ops-Sign:version=" ++ apiVer ++ "\nX-Ops-Timestamp:" ++ timestamp ++
      "\nX-Ops-UserId:" ++ userID ++ "\nX-Ops-Server-API-Version:" ++ serverVersion
  else
    "Method:" ++ method ++ "\nHashed Path:" ++ hashStr lib path ++
      "\nX-Ops-Content-Hash:" ++ cHash ++ "\nX-Ops-Timestamp:" ++ timestamp ++
      "\nX-Ops-UserId:" ++ if apiVer = "1.0" then userID else hashStr lib userID

namespace Request

def timestamp (r : Request) : Text := r.header.get "x-ops-timestamp"

def userID (r : Request) : Text := r.header.get "x-ops-userid"

def serverVersion (r : Request) : Text := r.header.get "x-ops-server-api-version"

def xopssign (r : Request) : Text := r.header.get "x-ops-sign"

def contentHash (r : Request) : Text := r.header.get "X-OPS-CONTENT-HASH"

end Request

lemma assembleHeaderToCheck_eq (lib : Library) (r : Request) (cHash apiVer : Text) :
    assembleHeaderToCheck lib r cHash apiVer =
      layout lib apiVer r.method (clean r.path) cHash r.timestamp r.userID r.serverVersion := by
  unfold assembleHeaderToCheck layout
  by_cases h13 : apiVer = "1.3"
  · simp only [h13, ne_eq, not_true_eq_false, and_false, if_false]
    rfl
  · by_cases h10 : apiVer = "1.0"
    · rw [if_neg h13, if_neg h13, if_pos h10, if_neg (by simp [h10])]
      rfl
    · rw [if_neg h13, if_neg h13, if_neg h10, if_pos ⟨h10, h13⟩]
      rfl

def unary (t : Text) : List UInt8 := t.flatMap fun c => List.replicate c.toNat 0 ++ [1]

lemma unary_cons (c : Char) (t : Text) : unary (c :: t) = List.replicate c.toNat 0 ++ 1 :: unary t := by
  simp [unary]

lemma unary_injective : Function.Injective unary := by
  intro t
  induction t with
  | nil =>
    intro u h
    cases u with
    | nil => rfl
    | cons d u => simp [unary] at h
  | cons c t ih =>
    intro u h
    cases u with
    | nil => simp [unary] at h
    | cons d u =>
      rw [unary_cons, unary_cons] at h
      have ho : ∀ n, (1 : UInt8) ∉ List.replicate n 0 := fun n hm => absurd (eq_of_mem_replicate hm) (by decide)
      obtain ⟨hc, ht⟩ := Text.append_cons_inj_left h (ho _) (ho _)
      have hl : c.toNat = d.toNat := by simpa using congrArg List.length hc
      rw [ih ht, Char.toNat_inj.mp hl]

def printByte (n : UInt8) : Char := Char.ofNat (n.toNat + 48)

lemma toNat_printByte (n : UInt8) : (printByte n).toNat = n.toNat + 48 := by
  have hc : ∀ i : Fin 256, (Char.ofNat (i + 48)).toNat = i + 48 := by decide +kernel
  exact hc ⟨n.toNat, n.toNat_lt⟩

def markLibrary : Library where
  sha1 := unary
  sha256 := unary
  encode b := b.map printByte
  decode t := .ok (t.map fun c => UInt8.ofNat (c.toNat - 48))
  headerDecrypt _ _ := .error "no signature"
  auth12HeaderVerify _ _ _ := some "no signature"
  auth13HeaderVerify _ _ sig := if sig = [1, 2] then none else some "no signature"

lemma markLibrary_injective : Function.Injective (hashStr markLibrary) := by
  refine Function.Injective.comp (g := fun b : List UInt8 => b.map printByte) ?_ unary_injective
  refine map_injective_iff.mpr fun m n h => ?_
  have hn := congrArg Char.toNat h
  rw [toNat_printByte, toNat_printByte] at hn
  exact UInt8.toNat_inj.mp (by omega)

lemma markLibrary_base (b : List UInt8) : '\n' ∉ markLibrary.encode b := by
  intro hm
  obtain ⟨n, -, hn⟩ := mem_map.mp hm
  have hnt := congrArg Char.toNat hn
  rw [toNat_printByte] at hnt
  have hb : '\n'.toNat = 10 := rfl
  omega

def markHeader : Header where
  entries := [("X-Ops-Content-Hash", digest markLibrary "1.3" "a"), ("X-Ops-Timestamp", "now"),
    ("X-Ops-Sign", "algorithm=sha256;version=1.3;"), ("X-Ops-Userid", "web"),
    ("X-Ops-Authorization-1", "12")].foldl (fun t p => t.insert p.1.toList [p.2]) ∅
  small := by decide +kernel

def markRequest (path : String) : Request := ⟨"GET", path.toList, markHeader, some ⟨"a", none, none⟩⟩

def markEnv : Env := ⟨0, fun _ => .ok 0, markLibrary⟩

section

def Accepts (lib : Library) (apiVer publicKey text signature : Text) : Prop :=
  if apiVer = "1.3" then
    ∃ sig, lib.decode signature = .ok sig ∧ lib.auth13HeaderVerify publicKey (lib.sha256 text) sig = none
  else if apiVer = "1.2" then
    ∃ sig, lib.decode signature = .ok sig ∧ lib.auth12HeaderVerify publicKey (lib.sha1 text) sig = none
  else lib.headerDecrypt publicKey signature = .ok text

variable {lib : Library} {env : Env} {publicKey text signature apiVer : Text}

lemma checkSignature_eq_ok_iff {sum : Text → List UInt8} {verifier : Text → List UInt8 → List UInt8 → Option Text} :
    checkSignature lib publicKey text signature sum verifier = .ok () ↔
      ∃ sig, lib.decode signature = .ok sig ∧ verifier publicKey (sum text) sig = none := by
  unfold checkSignature
  cases lib.decode signature with
  | error e => simp
  | ok sig =>
    simp only [Except.ok.injEq, exists_eq_left']
    cases verifier publicKey (sum text) sig <;> simp

lemma checkAuthHeaders_eq_ok_iff :
    checkAuthHeaders lib publicKey text signature = .ok () ↔ lib.headerDecrypt publicKey signature = .ok text := by
  unfold checkAuthHeaders
  cases lib.headerDecrypt publicKey signature with
  | error e => simp
  | ok decHead =>
    by_cases h : decHead = text <;> simp [h]

lemma verify_eq_ok_iff :
    verify env publicKey apiVer text signature = .ok () ↔ Accepts env.lib apiVer publicKey text signature := by
  unfold verify Accepts
  split
  · exact checkSignature_eq_ok_iff
  · split
    · exact checkSignature_eq_ok_iff
    · exact checkAuthHeaders_eq_ok_iff

lemma checkVersion_eq_ok_iff {xopssign : Text} :
    checkVersion xopssign = .ok apiVer ↔ firstMatch versionPattern xopssign = some apiVer ∧ apiVer ∈ versions := by
  unfold checkVersion
  cases firstMatch versionPattern xopssign with
  | none => simp
  | some v =>
    simp only [Option.some.injEq]
    constructor
    · intro h
      split at h
      · next hv =>
        cases h
        exact ⟨rfl, hv⟩
      · cases h
    · rintro ⟨rfl, hv⟩
      exact if_pos hv

def Allowed (apiVer name : Text) : Prop := name = "sha1" ∨ name = "sha256" ∧ apiVer = "1.3"

lemma checkAlgorithm_eq_ok_iff {xopssign : Text} : checkAlgorithm xopssign apiVer = .ok () ↔
    ∀ name, firstMatch algorithmPattern xopssign = some name → Allowed apiVer name := by
  unfold checkAlgorithm
  cases firstMatch algorithmPattern xopssign with
  | none => exact ⟨fun _ _ h => (nomatch h), fun _ => rfl⟩
  | some name =>
    have ha : Allowed apiVer name ↔
        ¬ (name ≠ "sha1" ∧ ¬ (name = "sha256" ∧ apiVer = "1.3")) := by
      rw [Allowed]
      tauto
    simp only [Option.some.injEq, forall_eq', ha]
    split
    · next h => exact ⟨fun h' => (nomatch h'), fun h' => absurd h h'⟩
    · next h => exact ⟨fun _ => h, fun _ => rfl⟩

lemma calcBodyHash_spec {r r' : Request} {chkHash : Text} (h : calcBodyHash lib r apiVer = .ok (chkHash, r')) :
    chkHash = digest lib apiVer r'.read ∧ r'.read = r.read ∧ r'.method = r.method ∧ r'.path = r.path ∧
      r'.header = r.header := by
  unfold calcBodyHash at h
  split at h
  · next hb =>
    cases h
    exact ⟨by rw [Request.read, hb]; rfl, rfl, rfl, rfl, rfl⟩
  · next b hb =>
    split at h
    · cases h
    · next save copy hd =>
      cases h
      have hc : save.content = b.content ∧ copy.content = b.content := by
        unfold drainBody at hd
        split at hd
        · cases hd
        · cases hd
        · cases hd
          exact ⟨rfl, rfl⟩
      refine ⟨?_, ?_, rfl, rfl, rfl⟩
      · rw [hc.2, ← hc.1]
        rfl
      · rw [Request.read, Request.read, hb]
        exact hc.1

/-- What an accepted request has passed, where `r'` is the request that the handlers get. -/
structure Verified (env : Env) (ord : HeaderOrder) (publicKey : Text) (timeSlew : Int64) (r r' : Request)
    (apiVer signature : Text) : Prop where
  version : firstMatch versionPattern r.xopssign = some apiVer
  known : apiVer ∈ versions
  algorithm : ∀ name, firstMatch algorithmPattern r.xopssign = some name → Allowed apiVer name
  body : r.contentHash = digest env.lib apiVer r'.read
  unread : r'.read = r.read
  timely : checkTimeStamp env.parse env.timeNow r.timestamp (if timeSlew = 0 then defaultTimeSlew else timeSlew) = .ok ()
  assembled : assembleSignedHeader ord r.header = .ok signature
  signed : Accepts env.lib apiVer publicKey
    (layout env.lib apiVer r'.method (clean r'.path) (digest env.lib apiVer r'.read) r'.timestamp r'.userID
      r'.serverVersion) signature

theorem authenticateHeader_verified (env : Env) (ord : HeaderOrder) (publicKey : Text) (timeSlew : Int64)
    (r r' : Request) (h : authenticateHeader env ord publicKey timeSlew r = .ok r') :
    ∃ apiVer signature, Verified env ord publicKey timeSlew r r' apiVer signature := by
  obtain ⟨_, -, h⟩ := bind_eq_ok h
  obtain ⟨_, -, h⟩ := bind_eq_ok h
  obtain ⟨_, ht, h⟩ := bind_eq_ok h
  obtain ⟨_, -, h⟩ := bind_eq_ok h
  obtain ⟨apiVer, hv, h⟩ := bind_eq_ok h
  obtain ⟨_, ha, h⟩ := bind_eq_ok h
  obtain ⟨⟨chkHash, r₁⟩, hb, h⟩ := bind_eq_ok h
  obtain ⟨_, hhs, h⟩ := bind_eq_ok h
  obtain ⟨signature, has, h⟩ := bind_eq_ok h
  obtain ⟨_, hs, h⟩ := bind_eq_ok h
  obtain rfl : r₁ = r' := ok_eq_ok_iff.mp h
  obtain ⟨hv, hk⟩ := checkVersion_eq_ok_iff.mp hv
  obtain ⟨hd, hu, hm, hp, hh⟩ := calcBodyHash_spec hb
  have he : chkHash = r.contentHash := demand_eq_ok_iff.mp hhs
  rw [verify_eq_ok_iff, assembleHeaderToCheck_eq, hd] at hs
  exact ⟨apiVer, signature, {
    version := hv
    known := hk
    algorithm := checkAlgorithm_eq_ok_iff.mp ha
    body := he.symm.trans hd
    unread := hu
    timely := ht
    assembled := hh ▸ has
    signed := hs }⟩

theorem authenticateHeader_verified_mark :
    ∃ apiVer signature, Verified markEnv givenOrder [] 0 (markRequest "/nodes") (markRequest "/nodes") apiVer signature :=
  authenticateHeader_verified markEnv givenOrder [] 0 _ _ rfl

end

section

abbrev IsLabel (l : Text) : Prop := l.head? = some '\n' ∧ '\n' ∉ l.tail

variable {a a' b b' l : Text}

lemma IsLabel.inj_right (hl : IsLabel l) (h : a ++ l ++ b = a' ++ l ++ b') (hb : '\n' ∉ b) (hb' : '\n' ∉ b') :
    a = a' ∧ b = b' := by
  obtain ⟨hh, ht⟩ := hl
  obtain ⟨t, rfl⟩ : ∃ t, l = '\n' :: t := List.head?_eq_some_iff.mp hh
  rw [append_assoc, append_assoc, cons_append, cons_append] at h
  obtain ⟨ha, hr⟩ := Text.append_cons_inj_right h (by simp_all) (by simp_all)
  exact ⟨ha, append_cancel_left hr⟩

lemma IsLabel.inj_left (hl : IsLabel l) (h : a ++ l ++ b = a' ++ l ++ b') (ha : '\n' ∉ a) (ha' : '\n' ∉ a') :
    a = a' ∧ b = b' := by
  obtain ⟨hh, ht⟩ := hl
  obtain ⟨t, rfl⟩ : ∃ t, l = '\n' :: t := List.head?_eq_some_iff.mp hh
  rw [append_assoc, append_assoc, cons_append, cons_append] at h
  obtain ⟨ha, hr⟩ := Text.append_cons_inj_left h ha ha'
  exact ⟨ha, append_cancel_left hr⟩

variable {lib : Library} {apiVer method method' path path' cHash cHash' timestamp timestamp' userID userID' : Text}
  {serverVersion serverVersion' : Text}

lemma not_mem_method (h : '\n' ∉ method) : '\n' ∉ "Method:" ++ method := by
  rw [mem_append, not_or]
  exact ⟨by decide, h⟩

lemma layout_inj_13 (h : layout lib "1.3" method path cHash timestamp userID serverVersion =
      layout lib "1.3" method' path' cHash' timestamp' userID' serverVersion')
    (hm : '\n' ∉ method) (hm' : '\n' ∉ method') (hh : '\n' ∉ cHash) (hh' : '\n' ∉ cHash')
    (ht : '\n' ∉ timestamp) (ht' : '\n' ∉ timestamp') (hu : '\n' ∉ userID) (hu' : '\n' ∉ userID')
    (hs : '\n' ∉ serverVersion) (hs' : '\n' ∉ serverVersion') :
    method = method' ∧ path = path' ∧ cHash = cHash' ∧ timestamp = timestamp' ∧ userID = userID' ∧
      serverVersion = serverVersion' := by
  rw [layout, layout, if_pos rfl, if_pos rfl] at h
  obtain ⟨h, hs⟩ := IsLabel.inj_right (by decide) h hs hs'
  obtain ⟨h, hu⟩ := IsLabel.inj_right (by decide) h hu hu'
  obtain ⟨h, ht⟩ := IsLabel.inj_right (by decide) h ht ht'
  obtain ⟨h, -⟩ := IsLabel.inj_right (by decide) h (by decide) (by decide)
  obtain ⟨h, hh⟩ := IsLabel.inj_right (by decide) h hh hh'
  obtain ⟨h, hp⟩ := IsLabel.inj_left (by decide) h (not_mem_method hm) (not_mem_method hm')
  exact ⟨append_cancel_left h, hp, hh, ht, hu, hs⟩

lemma layout_inj (hv : apiVer ≠ "1.3") (hi : Function.Injective (hashStr lib)) (hb : ∀ t, '\n' ∉ hashStr lib t)
    (h : layout lib apiVer method path cHash timestamp userID serverVersion =
      layout lib apiVer method' path' cHash' timestamp' userID' serverVersion')
    (hh : '\n' ∉ cHash) (hh' : '\n' ∉ cHash') (ht : '\n' ∉ timestamp) (ht' : '\n' ∉ timestamp') (hus : '\n' ∉ userID)
    (hu' : '\n' ∉ userID') : method = method' ∧ path = path' ∧ cHash = cHash' ∧ timestamp = timestamp' ∧ userID = userID' := by
  have hn : ∀ u, '\n' ∉ u → '\n' ∉ (if apiVer = "1.0" then u else hashStr lib u) := by
    intro u hu
    split
    · exact hu
    · exact hb u
  rw [layout, layout, if_neg hv, if_neg hv] at h
  obtain ⟨h, hs⟩ := IsLabel.inj_right (by decide) h (hn _ hus) (hn _ hu')
  obtain ⟨h, ht⟩ := IsLabel.inj_right (by decide) h ht ht'
  obtain ⟨h, hh⟩ := IsLabel.inj_right (by decide) h hh hh'
  obtain ⟨h, hp⟩ := IsLabel.inj_right (by decide) h (hb _) (hb _)
  have hsm : userID = userID' := by
    split at hs
    · exact hs
    · exact hi hs
  exact ⟨append_cancel_left h, hi hp, hh, ht, hsm⟩

structure Request.Plain (r : Request) : Prop where
  method : '\n' ∉ r.method
  header : ∀ k vs, r.header.entries.lookup k = some vs → ∀ v ∈ vs, '\n' ∉ v

lemma Request.Plain.get {r : Request} (h : r.Plain) (k : Text) : '\n' ∉ r.header.get k := by
  unfold Header.get
  split
  · next v vs hk => exact h.header _ _ hk v (.head _)
  · exact not_mem_nil

theorem assembleHeaderToCheck_inj (lib : Library) (hinj : Function.Injective (hashStr lib))
    (hbase : ∀ b, '\n' ∉ lib.encode b) (apiVer : Text) (hver : apiVer ∈ versions) (r r' : Request) (hr : r.Plain)
    (hr' : r'.Plain) (body body' : Text) (h : assembleHeaderToCheck lib r (digest lib apiVer body) apiVer =
      assembleHeaderToCheck lib r' (digest lib apiVer body') apiVer) :
    r.method = r'.method ∧ clean r.path = clean r'.path ∧ digest lib apiVer body = digest lib apiVer body' ∧
      r.timestamp = r'.timestamp ∧ r.userID = r'.userID ∧ (apiVer = "1.3" → r.serverVersion = r'.serverVersion) := by
  have hd : ∀ b, '\n' ∉ digest lib apiVer b := by
    intro b
    unfold digest
    split
    · exact hbase _
    · exact hbase _
  rw [assembleHeaderToCheck_eq, assembleHeaderToCheck_eq] at h
  by_cases h13 : apiVer = "1.3"
  · subst h13
    obtain ⟨hm, hp, hh, ht, hu, hs⟩ := layout_inj_13 h hr.method hr'.method (hd _) (hd _)
      (hr.get _) (hr'.get _) (hr.get _) (hr'.get _) (hr.get _) (hr'.get _)
    exact ⟨hm, hp, hh, ht, hu, fun _ => hs⟩
  · obtain ⟨hm, hp, hh, ht, hu⟩ := layout_inj h13 hinj (fun t => hbase _) h
      (hd _) (hd _) (hr.get _) (hr'.get _) (hr.get _) (hr'.get _)
    exact ⟨hm, hp, hh, ht, hu, fun h => absurd h h13⟩

lemma markRequest_plain (path : String) : (markRequest path).Plain where
  method := show '\n' ∉ "GET".toList by decide
  header := by
    have ha : ∀ e ∈ markHeader.entries.entries, ∀ v ∈ e.2, '\n' ∉ v := by decide +kernel
    exact fun k vs hk => ha ⟨k, vs⟩ (AList.mem_lookup_iff.mp hk)

theorem assembleHeaderToCheck_inj_mark : clean "/nodes/./" = clean "/nodes" := by
  have h := assembleHeaderToCheck_inj markLibrary markLibrary_injective markLibrary_base "1.3" (by decide)
    (markRequest "/nodes/./") (markRequest "/nodes") (markRequest_plain _) (markRequest_plain _) [] [] rfl
  exact h.2.1

end

end Goiardi.Authentication
