import Lnpl.Lib.Base64
import Lnpl.Lib.JsonText

/-!
# `HmacTokenProvider`

Issuance and verification of compact tokens signed with HS256 (`drivers.py`).  The HMAC is a
parameter, and so are the codecs that `json.loads` knows beside UTF-8, the containers that the
interpreter recurses into below an object (`depth`), the clock (`now`) and `uuid.uuid4().hex`
(`jti`).  A token is a text of any characters, as a request brings it.
-/

namespace Lnpl.Drivers.Tokens

open Lnpl.Lib
open Lnpl.Lib.JsonText (Json Fields Codecs Fault codes field loads dumps encodeUtf8)

/-! ### Constants -/

/-- `ACCEPTED_ALGS`. -/
def acceptedAlgs : List String := ["HS256"]

/-- `ISSUER`. -/
def defaultIssuer : String := "lnpl"

/-- `LEEWAY_S`. -/
def leewayS : Int := 60

/-- `MIN_SECRET_BYTES`. -/
def minSecretBytes : Nat := 32

/-- `DEFAULT_TTL_MS`. -/
def defaultTtlMs : Int := 15 * 60 * 1000

/-- `ROLE_CLAIM`. -/
def roleClaim : String := "role"

/-! ### Errors -/

/-- A `TokenError`, by what it reports. -/
inductive TokenError where
  | emptyIssuer
  | shortSecret (length : Nat)
  | shortPreviousSecret (length : Nat)
  | segments (count : Nat)
  | notBase64url
  | notJson (what : String)
  | notObject (what : String)
  | unacceptedAlg (alg : Json)
  | signature
  | unexpectedTyp (typ : Json)
  | unexpectedIss (iss : Json) (issuer : String)
  | wrongAudience (declared : Json) (audience : String)
  | noExp
  | notYetValid
  | expired

/-- The text of the error; `repr` is what `%r` writes for a value. -/
def TokenError.text (repr : Json → String) : TokenError → String
  | .emptyIssuer =>
    s!"--jwt-issuer must not be empty (omit it for the default {repr (.str (codes defaultIssuer))})"
  | .shortSecret length =>
    s!"the JWT signing secret must be at least {minSecretBytes} bytes, got {length}"
  | .shortPreviousSecret length =>
    s!"the previous JWT signing secret must be at least {minSecretBytes} bytes, got {length}"
  | .segments count => s!"token is not a compact JWS (expected 3 segments, got {count})"
  | .notBase64url => "token segment is not valid base64url"
  | .notJson what => s!"token {what} is not valid JSON"
  | .notObject what => s!"token {what} is not an object"
  | .unacceptedAlg alg =>
    s!"unaccepted alg {repr alg} (accepted: " ++ ", ".intercalate acceptedAlgs ++ ")"
  | .signature => "token signature does not verify"
  | .unexpectedTyp typ => s!"unexpected typ {repr typ} (expected 'JWT')"
  | .unexpectedIss iss issuer =>
    s!"unexpected iss {repr iss} (expected {repr (.str (codes issuer))})"
  | .wrongAudience declared audience =>
    s!"token audience {repr declared} does not match {repr (.str (codes audience))}"
  | .noExp => "token carries no exp"
  | .notYetValid => "token is not valid yet"
  | .expired => "token has expired"

/-- What a call raises. -/
inductive Raised where
  | tokenError (error : TokenError)
  | unicodeEncodeError
  | recursionError
  | valueError

/-! ### The provider -/

/-- `HmacTokenProvider`, with the keys that `_set_keys` lets pass. -/
structure HmacTokenProvider where
  current : List UInt8
  previous : Option (List UInt8)
  issuer : String
  current_length : minSecretBytes ≤ current.length
  previous_length : ∀ key ∈ previous, minSecretBytes ≤ key.length
  issuer_ne : issuer ≠ ""

/-- A secret, a str or bytes. -/
inductive Secret where
  | str (s : String)
  | bytes (raw : List UInt8)

/-- The bytes of the secret. -/
def Secret.raw : Secret → List UInt8
  | .str s => s.toUTF8.data.toList
  | .bytes raw => raw

/-- What `_set_keys` refuses. -/
def refusedKeys (current : List UInt8) (previous : Option (List UInt8)) : Option TokenError :=
  if current.length < minSecretBytes then some (.shortSecret current.length)
  else
    match previous with
    | some key =>
      if key.length < minSecretBytes then some (.shortPreviousSecret key.length) else none
    | none => none

theorem length_of_refusedKeys {current : List UInt8} {previous : Option (List UInt8)}
    (h : refusedKeys current previous = none) :
    minSecretBytes ≤ current.length ∧ ∀ key ∈ previous, minSecretBytes ≤ key.length := by
  unfold refusedKeys at h
  by_cases hcurrent : current.length < minSecretBytes
  · rw [if_pos hcurrent] at h
    cases h
  · rw [if_neg hcurrent] at h
    constructor
    · omega
    · rintro key rfl
      by_contra hkey
      have hlt : key.length < minSecretBytes := by omega
      dsimp only at h
      rw [if_pos hlt] at h
      cases h

/-- `_set_keys`. -/
def HmacTokenProvider.setKeys (p : HmacTokenProvider) (current : Secret)
    (previous : Option Secret) : Except TokenError HmacTokenProvider :=
  match h : refusedKeys current.raw (previous.map Secret.raw) with
  | some error => .error error
  | none =>
    .ok { p with
      current := current.raw
      previous := previous.map Secret.raw
      current_length := (length_of_refusedKeys h).1
      previous_length := (length_of_refusedKeys h).2 }

/-- `HmacTokenProvider(secret, issuer, previous_secret)`. -/
def HmacTokenProvider.create (secret : Secret) (issuer : Option String) (previous : Option Secret) :
    Except TokenError HmacTokenProvider :=
  match h : refusedKeys secret.raw (previous.map Secret.raw) with
  | some error => .error error
  | none =>
    if hempty : issuer.getD defaultIssuer = "" then .error .emptyIssuer
    else
      .ok {
        current := secret.raw
        previous := previous.map Secret.raw
        issuer := issuer.getD defaultIssuer
        current_length := (length_of_refusedKeys h).1
        previous_length := (length_of_refusedKeys h).2
        issuer_ne := hempty }

/-- `self._keys`. -/
def HmacTokenProvider.keys (p : HmacTokenProvider) : List (Option (List UInt8)) :=
  [some p.current, p.previous]

/-! ### Segments -/

/-- The characters are ASCII. -/
def isAscii (text : List Char) : Bool := text.all fun ch => ch.toNat < 128

/-- `text.encode("ascii")`. -/
def asciiBytes (text : List Char) : Option (List UInt8) :=
  if isAscii text then some (text.map fun ch => UInt8.ofNat ch.toNat) else none

/-- `_b64u_encode`. -/
def b64uEncode (raw : List UInt8) : List Char := Base64.strip (Base64.encode raw)

/-- `_b64u_decode`: `urlsafe_b64decode` takes a str of ASCII characters only. -/
def b64uDecode (text : List Char) : Except Raised (List UInt8) :=
  if isAscii (Base64.pad text) then
    match Base64.decode (Base64.pad text) with
    | .ok raw => .ok raw
    | .error _ => .error (.tokenError .notBase64url)
  else .error (.tokenError .notBase64url)

variable (codecs : Codecs) (depth : Nat)

/-- The object that `json.loads` answered; only a `ValueError` is caught. -/
def objectOf (what : String) : Except Fault Json → Except Raised Fields
  | .error .valueError => .error (.tokenError (.notJson what))
  | .error .recursionError => .error .recursionError
  | .ok (.dict fields) => .ok fields
  | .ok _ => .error (.tokenError (.notObject what))

/-- `_decode_json_segment`. -/
def decodeJsonSegment (text : List Char) (what : String) : Except Raised Fields := do
  let raw ← b64uDecode text
  objectOf what (loads codecs (depth + 1) raw)

/-! ### Signatures -/

/-- HMAC with SHA-256: of a key and a message. -/
abbrev Hmac := List UInt8 → List UInt8 → List UInt8

variable (hmac : Hmac)

/-- `_sign`, with the key that is meant. -/
def sign (signingInput : List Char) (key : List UInt8) : Except Raised (List UInt8) :=
  match asciiBytes signingInput with
  | some message => .ok (hmac key message)
  | none => .error .unicodeEncodeError

/-- One round of the loop over the keys. -/
def compareKey (signingInput : List Char) (given : List UInt8) (matched : Bool)
    (key : Option (List UInt8)) : Except Raised Bool :=
  match key with
  | none => .ok matched
  | some key => do
    let mac ← sign hmac signingInput key
    return matched || mac == given

/-- `_verify_signature`. -/
def HmacTokenProvider.verifySignature (p : HmacTokenProvider)
    (encodedHeader encodedClaims encodedSignature : List Char) : Except Raised Unit := do
  let given ← b64uDecode encodedSignature
  let signingInput := encodedHeader ++ '.' :: encodedClaims
  let matched ← p.keys.foldlM (compareKey hmac signingInput given) false
  if matched then .ok () else .error (.tokenError .signature)

/-! ### Verification -/

/-- `audience in holds`. -/
def holdsAudience (declared : Json) (audience : String) : Bool :=
  match declared with
  | .list items => items.any (Json.isText (codes audience))
  | declared => declared.isText (codes audience)

/-- The checks of the claims, behind the signature. -/
def HmacTokenProvider.checkClaims (p : HmacTokenProvider) (now : Int) (claims : Fields)
    (audience : String) : Except Raised Fields :=
  if !(field claims "iss").isText (codes p.issuer) then
    .error (.tokenError (.unexpectedIss (field claims "iss") p.issuer))
  else if !holdsAudience (field claims "aud") audience then
    .error (.tokenError (.wrongAudience (field claims "aud") audience))
  else
    match (field claims "exp").int? with
    | none => .error (.tokenError .noExp)
    | some exp =>
      if (field claims "nbf").int?.any fun nbf => now < nbf - leewayS then
        .error (.tokenError .notYetValid)
      else if exp + leewayS ≤ now then .error (.tokenError .expired)
      else .ok claims

/-- `verify`. -/
def HmacTokenProvider.verify (p : HmacTokenProvider) (now : Int) (token : List Char)
    (audience : String) : Except Raised Fields :=
  match token.splitOn '.' with
  | [encodedHeader, encodedClaims, encodedSignature] => do
    let header ← decodeJsonSegment codecs depth encodedHeader "header"
    if !acceptedAlgs.any (fun alg => (field header "alg").isText (codes alg)) then
      .error (.tokenError (.unacceptedAlg (field header "alg")))
    else
      p.verifySignature hmac encodedHeader encodedClaims encodedSignature
      if !(field header "typ").isText (codes "JWT") then
        .error (.tokenError (.unexpectedTyp (field header "typ")))
      else
        let claims ← decodeJsonSegment codecs depth encodedClaims "claims"
        p.checkClaims now claims audience
  | parts => .error (.tokenError (.segments parts.length))

/-! ### Issuance -/

/-- `ttl_ms // 1000`, of the lifetime that is meant. -/
def ttlS (ttlMs : Option Int) : Int := ttlMs.getD defaultTtlMs / 1000

/-- The header of the tokens that are issued. -/
def issuedHeader : Fields :=
  [(codes "alg", .str (codes "HS256")), (codes "typ", .str (codes "JWT"))]

/-- The claim of a role, if there is one. -/
def roleClaims : Option String → Fields
  | some role => [(codes roleClaim, .str (codes role))]
  | none => []

/-- The claims of a token. -/
def HmacTokenProvider.issuedClaims (p : HmacTokenProvider) (now : Int)
    (jti subject audience : String) (ttlMs : Option Int) (role : Option String) : Fields :=
  [(codes "iss", .str (codes p.issuer)), (codes "aud", .str (codes audience)),
    (codes "sub", .str (codes subject)), (codes "jti", .str (codes jti)), (codes "iat", .int now),
    (codes "nbf", .int now), (codes "exp", .int (now + ttlS ttlMs))] ++ roleClaims role

/-- An int that `int.__repr__` refuses to write. -/
def tooLong (n : Int) : Prop := Lnpl.Lib.Py.intDigitsLimit < (Nat.toDigits 10 n.natAbs).length

instance (n : Int) : Decidable (tooLong n) := inferInstanceAs (Decidable (_ < _))

/-- `issue`; a clock or a lifetime of too many digits is the `ValueError` of `json.dumps`. -/
def HmacTokenProvider.issue (p : HmacTokenProvider) (now : Int) (jti subject audience : String)
    (ttlMs : Option Int) (role : Option String) : Except Raised (List Char) :=
  if tooLong now ∨ tooLong (now + ttlS ttlMs) then .error .valueError
  else do
    let claims := p.issuedClaims now jti subject audience ttlMs role
    let signingInput := b64uEncode (encodeUtf8 (dumps (.dict issuedHeader))) ++
      '.' :: b64uEncode (encodeUtf8 (dumps (.dict claims)))
    let mac ← sign hmac signingInput p.current
    return signingInput ++ '.' :: b64uEncode mac

end Lnpl.Drivers.Tokens
