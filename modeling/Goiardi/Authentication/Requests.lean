import Goiardi.Cookbooks.Uploads

/-! `AuthenticateHeader`: the checks of the signed headers of a request. -/

namespace Goiardi.Authentication

open Actors (Refusal)
open Uploads (Fault demand)

def isTokenChar (c : Char) : Bool := c.isAlphanum || "!#$%&'*+-.^_`|~".toList.contains c

/-- `CanonicalMIMEHeaderKey`: a capital at the start and after each hyphen. -/
def capitalise : Bool → Text → Text
  | _, [] => []
  | upper, c :: t => (if upper then c.toUpper else c.toLower) :: capitalise (c = '-') t

def canonicalKey (k : Text) : Text := if k.all isTokenChar then capitalise true k else k

/-- The headers of a request. A map of Go has less keys than the largest `int`. -/
structure Header where
  entries : AList fun _ : Text => List Text
  small : (entries.keys.length : ℤ) < Text.maxInt64

/-- `Header.Get` -/
def Header.get (h : Header) (k : Text) : Text :=
  match h.entries.lookup (canonicalKey k) with
  | some (v :: _) => v
  | _ => []

structure Body where
  content : Text
  readError : Option Text
  closeError : Option Text

structure Request where
  method : Text
  path : Text
  header : Header
  body : Option Body

def Request.read (r : Request) : Text := r.body.elim [] Body.content

/-- The library of keys and hashes. The messages of its errors are taken as `Errorf` formats them. -/
structure Library where
  sha1 : Text → List UInt8
  sha256 : Text → List UInt8
  encode : List UInt8 → Text
  decode : Text → Except Text (List UInt8)
  headerDecrypt : Text → Text → Except Text Text
  auth12HeaderVerify : Text → List UInt8 → List UInt8 → Option Text
  auth13HeaderVerify : Text → List UInt8 → List UInt8 → Option Text

def unauthorized (message : Text) : Fault := .refused ⟨message, 401⟩

def bad (message : String) : Fault := .refused ⟨message.toList, 400⟩

/-- `t.Sub(u)`: times are in nanoseconds, and the difference is the nearest duration. -/
def sub (t u : ℤ) : Int64 :=
  if t - u < Text.minInt64 then Int64.minValue
  else if Text.maxInt64 < t - u then Int64.maxValue
  else Int64.ofInt (t - u)

def clockMessage : Text := "Authentication failed. Please check your system's clock."

-- the absolute value of the smallest duration is that duration itself
def checkTimeStamp (parse : Text → Except Text ℤ) (timeNow : ℤ) (timestamp : Text) (slew : Int64) :
    Except Fault Unit :=
  match parse timestamp with
  | .error e => .error (unauthorized e)
  | .ok timeHeader =>
    let tdiff := sub timeNow timeHeader
    let tdiff := if tdiff < 0 then -tdiff else tdiff
    if tdiff > slew then .error (unauthorized clockMessage) else .ok ()

section

/-- A character under `(?i)`: the letter s stands for the long s too. -/
def folds (p c : Char) : Bool := c = p || c = p.toUpper || (p = 's' && c = 'ſ')

/-- What follows a literal under `(?i)`. -/
def afterFolded : Text → Text → Option Text
  | [], t => some t
  | _ :: _, [] => none
  | p :: ps, c :: t => if folds p c then afterFolded ps t else none

def authLabel : Text := "x-ops-authorization-"

/-- `(?i)^X-Ops-Authorization-(\d+)`: the digits, and what follows them. -/
def authHeader (k : Text) : Option (Text × Text) :=
  match afterFolded authLabel k with
  | none => none
  | some t =>
    let (digits, rest) := Text.span Char.isDigit t
    if digits = [] then none else some (digits, rest)

structure HeaderOrder where
  keys : List Text → List Text
  slots : List (ℤ × Text) → List (ℤ × Text)
  keys_perm : ∀ l, (keys l).Perm l
  slots_perm : ∀ l, (slots l).Perm l

lemma slots_perm_id (l : List (ℤ × Text)) : (id l).Perm l := .refl l

def givenOrder : HeaderOrder := ⟨id, id, fun _ => .refl _, slots_perm_id⟩

variable (ord : HeaderOrder) (h : Header)

-- a number that is out of range becomes the largest `int`, and the error is dropped
def storeHeader (sHeadStore : AList fun _ : ℤ => Text) (k : Text) : AList fun _ : ℤ => Text :=
  match authHeader k with
  | none => sHeadStore
  | some (digits, _) => sHeadStore.insert (Text.parseInt digits).1 (h.get k)

def sHeadStore : AList fun _ : ℤ => Text := (ord.keys h.entries.keys).foldl (storeHeader h) ∅

def malformed : Fault := unauthorized "malformed authentication headers"

def fillSlots (sHlimit : ℕ) : List Text → List (ℤ × Text) → Except Fault (List Text)
  | sH, [] => .ok sH
  | sH, (k, v) :: rest =>
    if k > sHlimit then .error malformed
    else if 0 ≤ k - 1 ∧ k - 1 < sH.length then fillSlots sHlimit (sH.set (k - 1).toNat v) rest
    else .error (.panic .indexOutOfRange)

def assembleSignedHeader : Except Fault Text := do
  let slots := (sHeadStore ord h).entries.map fun e => (e.1, e.2)
  demand (slots.length ≠ 0) (unauthorized "No authentication headers found!")
  let sH ← fillSlots slots.length (List.replicate slots.length []) (ord.slots slots)
  return sH.flatten

end

/-- One element of a path: an inner `..` takes back the element before it. -/
def pathElement (rooted : Bool) (out : List Text) (part : Text) : List Text :=
  if part = ".." then
    match out with
    | top :: rest => if top = ".." then part :: out else rest
    | [] => if rooted then [] else [part]
  else part :: out

/-- `path.Clean` -/
def clean (path : Text) : Text :=
  let rooted : Bool := path.head? = some '/'
  let parts := (path.splitOn '/').filter fun part => part ≠ [] && part ≠ "."
  let out := Text.join "/" (parts.foldl (pathElement rooted) []).reverse
  if rooted then '/' :: out else if out = [] then "." else out

section

variable (lib : Library)

def hashStr (toHash : Text) : Text := lib.encode (lib.sha1 toHash)

def hashSha256Str (toHash : Text) : Text := lib.encode (lib.sha256 toHash)

def digest (apiVer body : Text) : Text :=
  if apiVer = "1.3" then hashSha256Str lib body else hashStr lib body

def drainBody (b : Body) : Except Text (Body × Body) :=
  match b.readError, b.closeError with
  | some e, _ => .error e
  | none, some e => .error e
  | none, none => .ok (⟨b.content, none, none⟩, ⟨b.content, none, none⟩)

def calcBodyHash (r : Request) (apiVer : Text) : Except Fault (Text × Request) :=
  match r.body with
  | none => .ok (digest lib apiVer [], r)
  | some b =>
    match drainBody b with
    | .error _ => .error (.refused ⟨"could not copy body", 500⟩)
    | .ok (save, copy) => .ok (digest lib apiVer copy.content, { r with body := some save })

def assembleHeaderToCheck (r : Request) (cHash apiVer : Text) : Text :=
  let timestamp := r.header.get "x-ops-timestamp"
  let userID := r.header.get "x-ops-userid"
  let userID := if apiVer ≠ "1.0" ∧ apiVer ≠ "1.3" then hashStr lib userID else userID
  if apiVer = "1.3" then
    "Method:" ++ r.method ++ "\nPath:" ++ clean r.path ++ "\nX-Ops-Content-Hash:" ++ cHash ++
      "\nX-Ops-Sign:version=" ++ apiVer ++ "\nX-Ops-Timestamp:" ++ timestamp ++
      "\nX-Ops-UserId:" ++ userID ++ "\nX-Ops-Server-API-Version:" ++
      r.header.get "x-ops-server-api-version"
  else
    "Method:" ++ r.method ++ "\nHashed Path:" ++ hashStr lib (clean r.path) ++
      "\nX-Ops-Content-Hash:" ++ cHash ++ "\nX-Ops-Timestamp:" ++ timestamp ++
      "\nX-Ops-UserId:" ++ userID

end

section

variable (lib : Library) (publicKey headToCheck signedHeaders : Text)

def checkSignature (sum : Text → List UInt8) (verify : Text → List UInt8 → List UInt8 → Option Text) :
    Except Fault Unit :=
  match lib.decode signedHeaders with
  | .error e => .error (unauthorized e)
  | .ok sig =>
    match verify publicKey (sum headToCheck) sig with
    | some e => .error (unauthorized e)
    | none => .ok ()

def checkAuth12Headers : Except Fault Unit :=
  checkSignature lib publicKey headToCheck signedHeaders lib.sha1 lib.auth12HeaderVerify

def checkAuth13Headers : Except Fault Unit :=
  checkSignature lib publicKey headToCheck signedHeaders lib.sha256 lib.auth13HeaderVerify

def checkAuthHeaders : Except Fault Unit :=
  match lib.headerDecrypt publicKey signedHeaders with
  | .error e => .error (unauthorized e)
  | .ok decHead =>
    if decHead ≠ headToCheck then .error (unauthorized "failed to verify authorization") else .ok ()

end

section

def after : Text → Text → Option Text
  | [], t => some t
  | _ :: _, [] => none
  | p :: ps, c :: t => if p = c then after ps t else none

def firstMatch (pattern : Text → Option Text) : Text → Option Text
  | [] => pattern []
  | c :: t => (pattern (c :: t)).orElse fun _ => firstMatch pattern t

/-- `version=(\d+\.\d+)` -/
def versionPattern (t : Text) : Option Text :=
  match after "version=" t with
  | none => none
  | some t =>
    match Text.span Char.isDigit t with
    | (major@(_ :: _), '.' :: t) =>
      match Text.span Char.isDigit t with
      | (minor@(_ :: _), _) => some (major ++ '.' :: minor)
      | _ => none
    | _ => none

def isWordChar (c : Char) : Bool := c.isAlphanum || c = '_'

/-- `algorithm=(\w+)` -/
def algorithmPattern (t : Text) : Option Text :=
  match after "algorithm=" t with
  | none => none
  | some t =>
    match Text.span isWordChar t with
    | (name@(_ :: _), _) => some name
    | _ => none

def versions : List Text := ["1.0", "1.1", "1.2", "1.3"].map String.toList

def checkVersion (xopssign : Text) : Except Fault Text :=
  match firstMatch versionPattern xopssign with
  | none => .error (bad "malformed version in X-Ops-Header")
  | some apiVer =>
    if apiVer ∈ versions then .ok apiVer
    else .error (.refused ⟨"Bad version number '" ++ apiVer ++ "' in X-Ops-Header", 400⟩)

def checkAlgorithm (xopssign apiVer : Text) : Except Fault Unit :=
  match firstMatch algorithmPattern xopssign with
  | none => .ok ()
  | some name =>
    if name ≠ "sha1" ∧ ¬ (name = "sha256" ∧ apiVer = "1.3") then
      .error (.refused
        ⟨"Unsupported hashing algorithm '" ++ name ++ "' specified in X-Ops-Header", 400⟩)
    else .ok ()

/-- The clock, the reader of times, with the messages of its errors as `Errorf` formats them, and the library of a
server. -/
structure Env where
  timeNow : ℤ
  parse : Text → Except Text ℤ
  lib : Library

def defaultTimeSlew : Int64 := 15 * 60 * 1000000000

variable (env : Env) (ord : HeaderOrder) (publicKey : Text)

def verify (apiVer headToCheck signedHeaders : Text) : Except Fault Unit :=
  if apiVer = "1.3" then checkAuth13Headers env.lib publicKey headToCheck signedHeaders
  else if apiVer = "1.2" then checkAuth12Headers env.lib publicKey headToCheck signedHeaders
  else checkAuthHeaders env.lib publicKey headToCheck signedHeaders

def authenticateHeader (timeSlew : Int64) (r : Request) : Except Fault Request := do
  let timeSlew := if timeSlew = 0 then defaultTimeSlew else timeSlew
  let contentHash := r.header.get "X-OPS-CONTENT-HASH"
  demand (contentHash ≠ []) (bad "no content hash provided")
  let authTimestamp := r.header.get "x-ops-timestamp"
  demand (authTimestamp ≠ []) (bad "no timestamp header provided")
  checkTimeStamp env.parse env.timeNow authTimestamp timeSlew
  let xopssign := r.header.get "x-ops-sign"
  demand (xopssign ≠ []) (bad "missing X-Ops-Sign header")
  let apiVer ← checkVersion xopssign
  checkAlgorithm xopssign apiVer
  let (chkHash, r) ← calcBodyHash env.lib r apiVer
  demand (chkHash = contentHash) (unauthorized "Content hash did not match hash of request body")
  let signedHeaders ← assembleSignedHeader ord r.header
  verify env publicKey apiVer (assembleHeaderToCheck env.lib r chkHash apiVer) signedHeaders
  return r

end

end Goiardi.Authentication
