import Lnpl.Drivers.HmacTokenProvider
import Lnpl.Lib.Results

/-!
# What `HmacTokenProvider.verify` answers

`verify` raises a `TokenError` or returns the claims of an accepted token, unless one of three
things happens: the header, or the claims of a token that is signed, nest deeper than the
interpreter recurses, or the claims of a token whose other segments can be read are not ASCII
(`verify_total_iff`).  What it returns is right in any case (`verify_eq_ok_iff`), and so is what it
makes of the tokens that `issue` produced (`verify_issue`).
-/

namespace Lnpl.Drivers.Tokens

open Lnpl.Lib
open Lnpl.Lib.JsonText (Json Fields Codecs codes codes_injective field loads dumps encodeUtf8 sortedFields)

/-! ### What a token is to be -/

/-- The bytes of a segment in base64url. -/
def Decodes (text : List Char) (raw : List UInt8) : Prop :=
  (∀ ch ∈ text, ch.toNat < 128) ∧ Base64.decode (Base64.pad text) = .ok raw

/-- The segment is the object of these fields. -/
def ReadsAs (codecs : Codecs) (depth : Nat) (text : List Char) (fields : Fields) : Prop :=
  ∃ raw, Decodes text raw ∧ loads codecs (depth + 1) raw = .ok (.dict fields)

/-- The segment is JSON that nests too deep. -/
def TooDeep (codecs : Codecs) (depth : Nat) (text : List Char) : Prop :=
  ∃ raw, Decodes text raw ∧ loads codecs (depth + 1) raw = .error .recursionError

/-- The header names an algorithm that is accepted. -/
def AlgAccepted (header : Fields) : Prop :=
  ∃ alg ∈ acceptedAlgs, field header "alg" = .str (codes alg)

/-- The signature is the HMAC of the first two segments under an installed key. -/
def Signed (hmac : Hmac) (p : HmacTokenProvider) (header claims signature : List Char) : Prop :=
  ∃ message mac key, asciiBytes (header ++ '.' :: claims) = some message ∧
    Decodes signature mac ∧ some key ∈ p.keys ∧ mac = hmac key message

/-- `aud` is the audience or a list that holds it. -/
def ForAudience (declared : Json) (audience : String) : Prop :=
  declared = .str (codes audience) ∨
    ∃ items, declared = .list items ∧ Json.str (codes audience) ∈ items

/-- What the claims are to say. -/
structure ClaimsHold (p : HmacTokenProvider) (now : Int) (claims : Fields) (audience : String) :
    Prop where
  iss : field claims "iss" = .str (codes p.issuer)
  aud : ForAudience (field claims "aud") audience
  exp : ∃ exp, (field claims "exp").int? = some exp ∧ now < exp + leewayS
  nbf : ∀ nbf, (field claims "nbf").int? = some nbf → nbf ≤ now + leewayS

/-- The token is to be accepted, with these claims. -/
def Accepted (codecs : Codecs) (depth : Nat) (hmac : Hmac) (p : HmacTokenProvider) (now : Int)
    (token : List Char) (audience : String) (claims : Fields) : Prop :=
  ∃ encodedHeader encodedClaims encodedSignature header,
    token.splitOn '.' = [encodedHeader, encodedClaims, encodedSignature] ∧
    ReadsAs codecs depth encodedHeader header ∧ AlgAccepted header ∧
    field header "typ" = .str (codes "JWT") ∧
    Signed hmac p encodedHeader encodedClaims encodedSignature ∧
    ReadsAs codecs depth encodedClaims claims ∧ ClaimsHold p now claims audience

/-- The call returns or raises a `TokenError`. -/
def Answers {α : Type} (result : Except Raised α) : Prop :=
  (∃ value, result = .ok value) ∨ ∃ error, result = .error (.tokenError error)

/-- The token is accepted for its audience until its lifetime and the leeway are over. -/
def AcceptsIssued (codecs : Codecs) (depth : Nat) (hmac : Hmac) (p : HmacTokenProvider)
    (now : Int) (token : List Char) (audience : String) : Prop :=
  ∀ (issuing : HmacTokenProvider) (issued : Int) (jti subject : String) (ttlMs : Option Int)
    (role : Option String), issuing.issuer = p.issuer → some issuing.current ∈ p.keys →
      issuing.issue hmac issued jti subject audience ttlMs role = .ok token →
      issued ≤ now → now < issued + ttlS ttlMs + leewayS →
        ∃ claims, p.verify codecs depth hmac now token audience = .ok claims

/-- The tokens whose verification ends in another exception. -/
inductive Escapes (codecs : Codecs) (depth : Nat) (hmac : Hmac) (p : HmacTokenProvider)
    (token : List Char) : Prop
  /-- a header that nests too deep -/
  | header {encodedHeader encodedClaims encodedSignature : List Char} :
      token.splitOn '.' = [encodedHeader, encodedClaims, encodedSignature] →
        TooDeep codecs depth encodedHeader → Escapes codecs depth hmac p token
  /-- claims that are not ASCII, behind a header that is accepted and before a signature that can be
  decoded -/
  | signingInput {encodedHeader encodedClaims encodedSignature : List Char} {header : Fields}
      {given : List UInt8} :
      token.splitOn '.' = [encodedHeader, encodedClaims, encodedSignature] →
        ReadsAs codecs depth encodedHeader header → AlgAccepted header →
        Decodes encodedSignature given → (¬∀ ch ∈ encodedClaims, ch.toNat < 128) →
        Escapes codecs depth hmac p token
  /-- claims that nest too deep, of a token that is signed -/
  | claims {encodedHeader encodedClaims encodedSignature : List Char} {header : Fields} :
      token.splitOn '.' = [encodedHeader, encodedClaims, encodedSignature] →
        ReadsAs codecs depth encodedHeader header → AlgAccepted header →
        field header "typ" = .str (codes "JWT") →
        Signed hmac p encodedHeader encodedClaims encodedSignature →
        TooDeep codecs depth encodedClaims → Escapes codecs depth hmac p token

/-! ### Segments -/

variable {text : List Char} {issued : Int} {jti subject : String} {ttlMs : Option Int}
  {role : Option String}

theorem isAscii_iff : isAscii text = true ↔ ∀ ch ∈ text, ch.toNat < 128 := by
  simp only [isAscii, List.all_eq_true, decide_eq_true_eq]

theorem isAscii_pad : isAscii (Base64.pad text) = true ↔ ∀ ch ∈ text, ch.toNat < 128 := by
  rw [isAscii_iff]
  constructor
  · intro h ch hch
    exact h ch (List.mem_append_left _ hch)
  · intro h ch hch
    rw [Base64.pad, List.mem_append] at hch
    rcases hch with hch | hch
    · exact h ch hch
    · rw [List.eq_of_mem_replicate hch]
      decide

/-- A segment is decoded, or refused. -/
theorem b64uDecode_cases (text : List Char) :
    (∃ raw, Decodes text raw ∧ b64uDecode text = .ok raw) ∨
      (¬∃ raw, Decodes text raw) ∧ b64uDecode text = .error (.tokenError .notBase64url) := by
  unfold b64uDecode
  by_cases hascii : ∀ ch ∈ text, ch.toNat < 128
  · rw [if_pos (isAscii_pad.mpr hascii)]
    cases hdecode : Base64.decode (Base64.pad text) with
    | ok raw => exact Or.inl ⟨raw, ⟨hascii, hdecode⟩, rfl⟩
    | error fault =>
      right
      refine ⟨?_, rfl⟩
      rintro ⟨raw, -, hraw⟩
      rw [hdecode] at hraw
      cases hraw
  · rw [if_neg (mt isAscii_pad.mp hascii)]
    right
    refine ⟨?_, rfl⟩
    rintro ⟨raw, hraw, -⟩
    exact hascii hraw

variable {raw given : List UInt8} {fields claims : Fields}

theorem Decodes.unique {raw' : List UInt8} (h : Decodes text raw) (h' : Decodes text raw') :
    raw = raw' :=
  Except.ok.inj (h.2.symm.trans h'.2)

theorem b64uDecode_of_decodes (h : Decodes text raw) : b64uDecode text = .ok raw := by
  rcases b64uDecode_cases text with ⟨raw', hraw', hdecode⟩ | ⟨hnone, -⟩
  · rw [hdecode, h.unique hraw']
  · exact absurd ⟨raw, h⟩ hnone

variable {codecs : Codecs} {depth : Nat} {hmac : Hmac}

theorem decodeJsonSegment_of_decodes {text : List Char} {raw : List UInt8} (h : Decodes text raw)
    (what : String) : decodeJsonSegment codecs depth text what =
      objectOf what (loads codecs (depth + 1) raw) := by
  rw [decodeJsonSegment, b64uDecode_of_decodes h]
  rfl

theorem ReadsAs.unique {fields' : Fields} (h : ReadsAs codecs depth text fields)
    (h' : ReadsAs codecs depth text fields') : fields = fields' := by
  obtain ⟨raw, hraw, hloads⟩ := h
  obtain ⟨raw', hraw', hloads'⟩ := h'
  rw [hraw.unique hraw', hloads'] at hloads
  exact (Json.dict.inj (Except.ok.inj hloads)).symm

theorem decodeJsonSegment_of_readsAs (h : ReadsAs codecs depth text fields) (what : String) :
    decodeJsonSegment codecs depth text what = .ok fields := by
  obtain ⟨raw, hraw, hloads⟩ := h
  rw [decodeJsonSegment_of_decodes hraw, hloads]
  rfl

theorem decodeJsonSegment_of_tooDeep (h : TooDeep codecs depth text) (what : String) :
    decodeJsonSegment codecs depth text what = .error .recursionError := by
  obtain ⟨raw, hraw, hloads⟩ := h
  rw [decodeJsonSegment_of_decodes hraw, hloads]
  rfl

/-- A segment is read as an object, nests too deep, or is refused. -/
theorem decodeJsonSegment_cases (codecs : Codecs) (depth : Nat) (text : List Char)
    (what : String) :
    (∃ fields, ReadsAs codecs depth text fields) ∨ TooDeep codecs depth text ∨
      ∃ error, decodeJsonSegment codecs depth text what = .error (.tokenError error) := by
  rcases b64uDecode_cases text with ⟨raw, hraw, -⟩ | ⟨-, hdecode⟩
  · have hsegment := @decodeJsonSegment_of_decodes codecs depth text raw hraw what
    cases hloads : loads codecs (depth + 1) raw with
    | error fault =>
      rw [hloads] at hsegment
      cases fault with
      | valueError => exact Or.inr (Or.inr ⟨_, hsegment⟩)
      | recursionError => exact Or.inr (Or.inl ⟨raw, hraw, hloads⟩)
    | ok value =>
      rw [hloads] at hsegment
      cases value with
      | dict fields => exact Or.inl ⟨fields, raw, hraw, hloads⟩
      | null | bool | int | float | str | list => exact Or.inr (Or.inr ⟨_, hsegment⟩)
  · right
    right
    refine ⟨.notBase64url, ?_⟩
    rw [decodeJsonSegment, hdecode]
    rfl

/-! ### Signatures -/

/-- The loop over the keys finds one whose HMAC was given. -/
theorem foldlM_compareKey {signingInput : List Char} {message given : List UInt8}
    (h : asciiBytes signingInput = some message) (keys : List (Option (List UInt8))) :
    ∀ matched, keys.foldlM (compareKey hmac signingInput given) matched =
      .ok (matched || keys.any fun key => key.any fun key => hmac key message == given) := by
  induction keys with
  | nil =>
    intro matched
    rw [List.any_nil, Bool.or_false]
    rfl
  | cons key keys ih =>
    intro matched
    have hkey : compareKey hmac signingInput given matched key =
        .ok (matched || key.any fun key => hmac key message == given) := by
      cases key with
      | none =>
        rw [Option.any_none, Bool.or_false]
        rfl
      | some key =>
        have hsign : sign hmac signingInput key = .ok (hmac key message) := by
          rw [sign, h]
        rw [compareKey, hsign]
        rfl
    rw [List.foldlM_cons, hkey, List.any_cons, ← Bool.or_assoc]
    exact ih _

theorem any_keys_iff {p : HmacTokenProvider} {message : List UInt8} :
    (p.keys.any fun key => key.any fun key => hmac key message == given) = true ↔
      ∃ key, some key ∈ p.keys ∧ given = hmac key message := by
  rw [List.any_eq_true]
  constructor
  · rintro ⟨key, hmem, hkey⟩
    cases key with
    | none => cases hkey
    | some key =>
      rw [Option.any_some, beq_iff_eq] at hkey
      exact ⟨key, hmem, hkey.symm⟩
  · rintro ⟨key, hmem, hkey⟩
    refine ⟨some key, hmem, ?_⟩
    rw [Option.any_some, beq_iff_eq]
    exact hkey.symm

theorem asciiBytes_isSome : (asciiBytes text).isSome ↔ ∀ ch ∈ text, ch.toNat < 128 := by
  unfold asciiBytes
  rw [← isAscii_iff]
  by_cases hascii : isAscii text = true
  · rw [if_pos hascii]
    exact ⟨fun _ => hascii, fun _ => rfl⟩
  · rw [if_neg hascii]
    exact ⟨fun h => absurd h (by decide), fun h => absurd h hascii⟩

/-- The segments that are signed are ASCII if and only if the claims are, behind a header that can
be read. -/
theorem ascii_signingInput {codecs : Codecs} {depth : Nat} {encodedHeader encodedClaims : List Char}
    {header : Fields} (h : ReadsAs codecs depth encodedHeader header) :
    (∀ ch ∈ encodedHeader ++ '.' :: encodedClaims, ch.toNat < 128) ↔
      ∀ ch ∈ encodedClaims, ch.toNat < 128 := by
  obtain ⟨raw, hraw, -⟩ := h
  constructor
  · intro hall ch hch
    exact hall ch (List.mem_append_right _ (List.mem_cons_of_mem _ hch))
  · intro hclaims ch hch
    rcases List.mem_append.mp hch with hch | hch
    · exact hraw.1 ch hch
    · rcases List.mem_cons.mp hch with rfl | hch
      · decide
      · exact hclaims ch hch

theorem verifySignature_of_not_decodes {p : HmacTokenProvider}
    {encodedHeader encodedClaims encodedSignature : List Char}
    (h : ¬∃ given, Decodes encodedSignature given) :
    ∃ error, p.verifySignature hmac encodedHeader encodedClaims encodedSignature =
      .error (.tokenError error) := by
  rcases b64uDecode_cases encodedSignature with ⟨given, hgiven, -⟩ | ⟨-, hdecode⟩
  · exact absurd ⟨given, hgiven⟩ h
  · rw [HmacTokenProvider.verifySignature, hdecode]
    exact ⟨_, rfl⟩

/-- Where the segments are not ASCII, the exception of the codec escapes. -/
theorem verifySignature_of_not_ascii {p : HmacTokenProvider}
    {encodedHeader encodedClaims encodedSignature : List Char}
    (hgiven : Decodes encodedSignature given)
    (h : ¬∀ ch ∈ encodedHeader ++ '.' :: encodedClaims, ch.toNat < 128) :
    p.verifySignature hmac encodedHeader encodedClaims encodedSignature =
      .error .unicodeEncodeError := by
  have hnone : asciiBytes (encodedHeader ++ '.' :: encodedClaims) = none := by
    rw [asciiBytes, if_neg (mt isAscii_iff.mp h)]
  have hsign : sign hmac (encodedHeader ++ '.' :: encodedClaims) p.current =
      .error .unicodeEncodeError := by
    rw [sign, hnone]
  have hfirst : compareKey hmac (encodedHeader ++ '.' :: encodedClaims) given false
      (some p.current) = .error .unicodeEncodeError := by
    rw [compareKey, hsign]
    rfl
  rw [HmacTokenProvider.verifySignature, b64uDecode_of_decodes hgiven]
  dsimp only [bind, Except.bind]
  rw [HmacTokenProvider.keys, List.foldlM_cons, hfirst]
  rfl

/-- Where the segments are ASCII, the signature is right or refused. -/
theorem verifySignature_of_ascii {p : HmacTokenProvider}
    {encodedHeader encodedClaims encodedSignature : List Char} {given : List UInt8}
    (hgiven : Decodes encodedSignature given)
    (h : ∀ ch ∈ encodedHeader ++ '.' :: encodedClaims, ch.toNat < 128) :
    Signed hmac p encodedHeader encodedClaims encodedSignature ∧
        p.verifySignature hmac encodedHeader encodedClaims encodedSignature = .ok () ∨
      ¬Signed hmac p encodedHeader encodedClaims encodedSignature ∧
        p.verifySignature hmac encodedHeader encodedClaims encodedSignature =
          .error (.tokenError .signature) := by
  obtain ⟨message, hmessage⟩ := Option.isSome_iff_exists.mp (asciiBytes_isSome.mpr h)
  have hloop := @foldlM_compareKey hmac _ message given hmessage p.keys false
  have hsigned : Signed hmac p encodedHeader encodedClaims encodedSignature ↔
      ∃ key, some key ∈ p.keys ∧ given = hmac key message := by
    constructor
    · rintro ⟨message', mac, key, hmessage', hmac', hkey, rfl⟩
      rw [hmessage] at hmessage'
      obtain rfl := Option.some.inj hmessage'
      exact ⟨key, hkey, hgiven.unique hmac'⟩
    · rintro ⟨key, hkey, hmac'⟩
      exact ⟨message, given, key, hmessage, hgiven, hkey, hmac'⟩
  rw [HmacTokenProvider.verifySignature, b64uDecode_of_decodes hgiven]
  dsimp only [bind, Except.bind]
  rw [hloop, Bool.false_or]
  by_cases hany : (p.keys.any fun key => key.any fun key => hmac key message == given) = true
  · left
    dsimp only
    rw [if_pos hany]
    exact ⟨hsigned.mpr (any_keys_iff.mp hany), rfl⟩
  · right
    dsimp only
    rw [if_neg hany]
    exact ⟨fun hall => hany (any_keys_iff.mpr (hsigned.mp hall)), rfl⟩

/-! ### Claims -/

theorem isText_iff {value : Json} {text : JsonText.Text} :
    value.isText text = true ↔ value = .str text := by
  cases value with
  | str other =>
    rw [Json.isText, beq_iff_eq]
    constructor
    · rintro rfl
      rfl
    · exact fun h => Json.str.inj h
  | null | bool | int | float | list | dict => simp [Json.isText]

theorem holdsAudience_iff {declared : Json} {audience : String} :
    holdsAudience declared audience = true ↔ ForAudience declared audience := by
  have hother : (∀ items, declared ≠ .list items) →
      (declared.isText (codes audience) = true ↔ ForAudience declared audience) := by
    intro hlist
    rw [isText_iff, ForAudience]
    constructor
    · exact Or.inl
    · rintro (h | ⟨items, h, -⟩)
      · exact h
      · exact absurd h (hlist items)
  cases declared with
  | list items =>
    rw [holdsAudience, List.any_eq_true, ForAudience]
    constructor
    · rintro ⟨item, hitem, htext⟩
      rw [isText_iff.mp htext] at hitem
      exact Or.inr ⟨items, rfl, hitem⟩
    · rintro (h | ⟨items', h, hitem⟩)
      · cases h
      · obtain rfl := Json.list.inj h
        exact ⟨_, hitem, isText_iff.mpr rfl⟩
  | null | bool | int | float | str | dict => exact hother fun items h => by cases h

/-- The claims hold and are returned, or do not and are refused. -/
theorem checkClaims_cases (p : HmacTokenProvider) (now : Int) (claims : Fields)
    (audience : String) :
    ClaimsHold p now claims audience ∧ p.checkClaims now claims audience = .ok claims ∨
      ¬ClaimsHold p now claims audience ∧
        ∃ error, p.checkClaims now claims audience = .error (.tokenError error) := by
  unfold HmacTokenProvider.checkClaims
  by_cases hiss : (field claims "iss").isText (codes p.issuer) = true
  · by_cases haud : holdsAudience (field claims "aud") audience = true
    · rw [hiss, haud]
      cases hexp : (field claims "exp").int? with
      | none =>
        right
        refine ⟨?_, _, rfl⟩
        intro h
        obtain ⟨exp, hsome, -⟩ := h.exp
        rw [hexp] at hsome
        cases hsome
      | some exp =>
        by_cases hnbf : (field claims "nbf").int?.any (fun nbf => now < nbf - leewayS) = true
        · right
          rw [hnbf]
          refine ⟨?_, _, rfl⟩
          intro h
          rw [Option.any_eq_true] at hnbf
          obtain ⟨nbf, hsome, hlt⟩ := hnbf
          have hle := h.nbf nbf hsome
          rw [decide_eq_true_eq] at hlt
          omega
        · have hnone : ∀ nbf, (field claims "nbf").int? = some nbf → nbf ≤ now + leewayS := by
            intro nbf hsome
            by_contra hlt
            apply hnbf
            rw [hsome, Option.any_some, decide_eq_true_eq]
            omega
          by_cases hlate : exp + leewayS ≤ now
          · right
            constructor
            · intro h
              obtain ⟨exp', hsome, hlt⟩ := h.exp
              rw [hexp] at hsome
              obtain rfl := Option.some.inj hsome
              omega
            · refine ⟨.expired, ?_⟩
              simp only [hnbf, hlate, Bool.not_true, Bool.false_eq_true, if_false, if_true]
          · left
            constructor
            · exact ⟨isText_iff.mp hiss, holdsAudience_iff.mp haud, ⟨exp, hexp, by omega⟩, hnone⟩
            · simp only [hnbf, hlate, Bool.not_true, Bool.false_eq_true, if_false]
    · right
      constructor
      · intro h
        exact haud (holdsAudience_iff.mpr h.aud)
      · rw [Bool.not_eq_true] at haud
        rw [hiss, haud]
        exact ⟨_, rfl⟩
  · right
    constructor
    · intro h
      exact hiss (isText_iff.mpr h.iss)
    · rw [Bool.not_eq_true] at hiss
      rw [hiss]
      exact ⟨_, rfl⟩

/-! ### Verification -/

variable {p : HmacTokenProvider} {now : Int} {token : List Char} {audience : String}

theorem algAccepted_iff {header : Fields} :
    (acceptedAlgs.any fun alg => (field header "alg").isText (codes alg)) = true ↔
      AlgAccepted header := by
  rw [List.any_eq_true, AlgAccepted]
  constructor
  · rintro ⟨alg, halg, htext⟩
    exact ⟨alg, halg, isText_iff.mp htext⟩
  · rintro ⟨alg, halg, htext⟩
    exact ⟨alg, halg, isText_iff.mpr htext⟩

/-- A token of another number of segments is refused. -/
theorem verify_of_segments (h : (token.splitOn '.').length ≠ 3) :
    ∃ error, p.verify codecs depth hmac now token audience = .error (.tokenError error) := by
  unfold HmacTokenProvider.verify
  cases hsplit : token.splitOn '.' with
  | nil => exact ⟨_, rfl⟩
  | cons first rest =>
    cases rest with
    | nil => exact ⟨_, rfl⟩
    | cons second rest =>
      cases rest with
      | nil => exact ⟨_, rfl⟩
      | cons third rest =>
        cases rest with
        | nil =>
          rw [hsplit] at h
          exact absurd rfl h
        | cons fourth rest => exact ⟨_, rfl⟩

/-- The segments of a token that has three. -/
theorem exists_segments (h : (token.splitOn '.').length = 3) :
    ∃ encodedHeader encodedClaims encodedSignature,
      token.splitOn '.' = [encodedHeader, encodedClaims, encodedSignature] :=
  List.length_eq_three.mp h

section

variable {encodedHeader encodedClaims encodedSignature : List Char}
  (hsplit : token.splitOn '.' = [encodedHeader, encodedClaims, encodedSignature])

include hsplit

theorem verify_of_header_refused {error : TokenError}
    (h : decodeJsonSegment codecs depth encodedHeader "header" = .error (.tokenError error)) :
    p.verify codecs depth hmac now token audience = .error (.tokenError error) := by
  rw [HmacTokenProvider.verify, hsplit]
  dsimp only
  rw [h]
  rfl

theorem verify_of_header_deep (h : TooDeep codecs depth encodedHeader) :
    p.verify codecs depth hmac now token audience = .error .recursionError := by
  rw [HmacTokenProvider.verify, hsplit]
  dsimp only
  rw [decodeJsonSegment_of_tooDeep h]
  rfl

variable {header : Fields} (hheader : ReadsAs codecs depth encodedHeader header)

include hheader

theorem verify_of_alg (h : ¬AlgAccepted header) :
    p.verify codecs depth hmac now token audience =
      .error (.tokenError (.unacceptedAlg (field header "alg"))) := by
  have halg := mt algAccepted_iff.mp h
  rw [Bool.not_eq_true] at halg
  rw [HmacTokenProvider.verify, hsplit]
  dsimp only
  rw [decodeJsonSegment_of_readsAs hheader]
  dsimp only [bind, Except.bind]
  rw [halg]
  rfl

variable (halg : AlgAccepted header)

include halg

/-- The rest of the checklist, behind the algorithm. -/
theorem verify_of_header :
    p.verify codecs depth hmac now token audience = (do
      p.verifySignature hmac encodedHeader encodedClaims encodedSignature
      if !(field header "typ").isText (codes "JWT") then
        .error (.tokenError (.unexpectedTyp (field header "typ")))
      else
        let claims ← decodeJsonSegment codecs depth encodedClaims "claims"
        p.checkClaims now claims audience) := by
  rw [HmacTokenProvider.verify, hsplit]
  dsimp only
  rw [decodeJsonSegment_of_readsAs hheader]
  dsimp only [bind, Except.bind]
  rw [algAccepted_iff.mpr halg]
  rfl

theorem verify_of_signature_error {raised : Raised}
    (h : p.verifySignature hmac encodedHeader encodedClaims encodedSignature = .error raised) :
    p.verify codecs depth hmac now token audience = .error raised := by
  rw [verify_of_header hsplit hheader halg, h]
  rfl

variable (hsigned : p.verifySignature hmac encodedHeader encodedClaims encodedSignature = .ok ())

include hsigned

theorem verify_of_typ (h : field header "typ" ≠ .str (codes "JWT")) :
    p.verify codecs depth hmac now token audience =
      .error (.tokenError (.unexpectedTyp (field header "typ"))) := by
  have htyp := mt isText_iff.mp h
  rw [Bool.not_eq_true] at htyp
  rw [verify_of_header hsplit hheader halg, hsigned]
  dsimp only [bind, Except.bind]
  rw [htyp]
  rfl

/-- The claims, behind the header and the signature. -/
theorem verify_of_signed (htyp : field header "typ" = .str (codes "JWT")) :
    p.verify codecs depth hmac now token audience = (do
      let claims ← decodeJsonSegment codecs depth encodedClaims "claims"
      p.checkClaims now claims audience) := by
  rw [verify_of_header hsplit hheader halg, hsigned]
  dsimp only [bind, Except.bind]
  rw [isText_iff.mpr htyp]
  rfl

end

/-- How a verification ends: with the claims of an accepted token, with a `TokenError`, or with one
of the exceptions that escape. -/
theorem verify_cases (codecs : Codecs) (depth : Nat) (hmac : Hmac) (p : HmacTokenProvider)
    (now : Int) (token : List Char) (audience : String) :
    (∃ claims, Accepted codecs depth hmac p now token audience claims ∧
        p.verify codecs depth hmac now token audience = .ok claims) ∨
      (∃ error, p.verify codecs depth hmac now token audience = .error (.tokenError error)) ∨
      Escapes codecs depth hmac p token := by
  by_cases hlength : (token.splitOn '.').length = 3
  swap
  · exact Or.inr (Or.inl (verify_of_segments hlength))
  obtain ⟨encodedHeader, encodedClaims, encodedSignature, hsplit⟩ := exists_segments hlength
  -- The header.
  rcases decodeJsonSegment_cases codecs depth encodedHeader "header" with
    ⟨header, hheader⟩ | hdeep | ⟨error, herror⟩
  swap
  · exact Or.inr (Or.inr (.header hsplit hdeep))
  swap
  · exact Or.inr (Or.inl ⟨error, verify_of_header_refused hsplit herror⟩)
  by_cases halg : AlgAccepted header
  swap
  · exact Or.inr (Or.inl ⟨_, verify_of_alg hsplit hheader halg⟩)
  -- The signature.
  by_cases hdecodes : ∃ given, Decodes encodedSignature given
  swap
  · obtain ⟨error, herror⟩ := @verifySignature_of_not_decodes hmac p _ _ _ hdecodes
    exact Or.inr (Or.inl ⟨error, verify_of_signature_error hsplit hheader halg herror⟩)
  obtain ⟨given, hgiven⟩ := hdecodes
  by_cases hascii : ∀ ch ∈ encodedClaims, ch.toNat < 128
  swap
  · exact Or.inr (Or.inr (.signingInput hsplit hheader halg hgiven hascii))
  have hinput := (ascii_signingInput hheader).mpr hascii
  rcases @verifySignature_of_ascii hmac p _ _ _ _ hgiven hinput with
    ⟨hsigned, hverified⟩ | ⟨-, hrefused⟩
  swap
  · exact Or.inr (Or.inl ⟨_, verify_of_signature_error hsplit hheader halg hrefused⟩)
  by_cases htyp : field header "typ" = .str (codes "JWT")
  swap
  · exact Or.inr (Or.inl ⟨_, verify_of_typ hsplit hheader halg hverified htyp⟩)
  -- The claims.
  have hrest : p.verify codecs depth hmac now token audience = _ :=
    verify_of_signed hsplit hheader halg hverified htyp
  rcases decodeJsonSegment_cases codecs depth encodedClaims "claims" with
    ⟨claims, hclaims⟩ | hdeep | ⟨error, herror⟩
  · rw [decodeJsonSegment_of_readsAs hclaims] at hrest
    rcases checkClaims_cases p now claims audience with ⟨hhold, hcheck⟩ | ⟨-, error, hcheck⟩
    · left
      refine ⟨claims, ?_, hrest.trans hcheck⟩
      exact ⟨encodedHeader, encodedClaims, encodedSignature, header, hsplit, hheader, halg, htyp,
        hsigned, hclaims, hhold⟩
    · exact Or.inr (Or.inl ⟨error, hrest.trans hcheck⟩)
  · exact Or.inr (Or.inr (.claims hsplit hheader halg htyp hsigned hdeep))
  · rw [herror] at hrest
    exact Or.inr (Or.inl ⟨error, hrest⟩)

theorem verifySignature_of_signed {encodedHeader encodedClaims encodedSignature : List Char}
    (h : Signed hmac p encodedHeader encodedClaims encodedSignature) :
    p.verifySignature hmac encodedHeader encodedClaims encodedSignature = .ok () := by
  obtain ⟨message, mac, key, hmessage, hmac', -, -⟩ := id h
  have hascii : ∀ ch ∈ encodedHeader ++ '.' :: encodedClaims, ch.toNat < 128 := by
    rw [← asciiBytes_isSome, hmessage]
    rfl
  rcases @verifySignature_of_ascii hmac p _ _ _ _ hmac' hascii with
    ⟨-, hverified⟩ | ⟨hnot, -⟩
  · exact hverified
  · exact absurd h hnot

/-- The claims of an accepted token are returned. -/
theorem verify_of_accepted (h : Accepted codecs depth hmac p now token audience claims) :
    p.verify codecs depth hmac now token audience = .ok claims := by
  obtain ⟨encodedHeader, encodedClaims, encodedSignature, header, hsplit, hheader, halg, htyp,
    hsigned, hclaims, hhold⟩ := h
  rw [verify_of_signed hsplit hheader halg (verifySignature_of_signed hsigned) htyp,
    decodeJsonSegment_of_readsAs hclaims]
  rcases checkClaims_cases p now claims audience with ⟨-, hcheck⟩ | ⟨hnot, -⟩
  · exact hcheck
  · exact absurd hhold hnot

/-- An exception that escapes is no `TokenError`. -/
theorem verify_of_escapes (h : Escapes codecs depth hmac p token) :
    p.verify codecs depth hmac now token audience = .error .recursionError ∨
      p.verify codecs depth hmac now token audience = .error .unicodeEncodeError := by
  cases h with
  | header hsplit hdeep => exact Or.inl (verify_of_header_deep hsplit hdeep)
  | signingInput hsplit hheader halg hgiven hascii =>
    right
    apply verify_of_signature_error hsplit hheader halg
    apply verifySignature_of_not_ascii hgiven
    exact fun hinput => hascii ((ascii_signingInput hheader).mp hinput)
  | claims hsplit hheader halg htyp hsigned hdeep =>
    left
    rw [verify_of_signed hsplit hheader halg (verifySignature_of_signed hsigned) htyp,
      decodeJsonSegment_of_tooDeep hdeep]
    rfl

/-- **Soundness**: `verify` returns the claims of the tokens that are to be accepted, and of no
others. -/
theorem verify_eq_ok_iff :
    p.verify codecs depth hmac now token audience = .ok claims ↔
      Accepted codecs depth hmac p now token audience claims := by
  constructor
  · intro h
    rcases verify_cases codecs depth hmac p now token audience with
      ⟨claims', haccepted, hok⟩ | ⟨error, herror⟩ | hescapes
    · rw [h] at hok
      rw [Except.ok.inj hok]
      exact haccepted
    · rw [h] at herror
      cases herror
    · rcases @verify_of_escapes _ _ _ _ now _ audience hescapes with hraised | hraised
      · rw [h] at hraised
        cases hraised
      · rw [h] at hraised
        cases hraised
  · exact verify_of_accepted

/-! ### Issued tokens -/

theorem plain_codes (s : String) : ∀ code ∈ codes s, code.isValidChar := by
  intro code hcode
  obtain ⟨ch, -, rfl⟩ := List.mem_map.mp hcode
  exact ch.valid

theorem plain_str (s : String) : (Json.str (codes s)).Plain := plain_codes s

theorem decodes_b64uEncode (raw : List UInt8) : Decodes (b64uEncode raw) raw :=
  ⟨fun _ hch => Base64.ascii_of_mem_strip hch, Base64.decode_pad_strip raw⟩

/-- A segment that an object of plain values was written to is read as that object. -/
theorem readsAs_dumps (h : JsonText.PlainFields fields) (hnodup : (fields.map Prod.fst).Nodup)
    (hne : fields ≠ []) :
    ReadsAs codecs depth (b64uEncode (encodeUtf8 (dumps (.dict fields)))) (sortedFields fields) :=
  ⟨_, decodes_b64uEncode _, JsonText.loads_dumps codecs depth h hnodup hne⟩

theorem readsAs_issuedHeader :
    ReadsAs codecs depth (b64uEncode (encodeUtf8 (dumps (.dict issuedHeader))))
      (sortedFields issuedHeader) := by
  apply readsAs_dumps
  · intro entry hentry
    simp only [issuedHeader, List.mem_cons, List.not_mem_nil, or_false] at hentry
    rcases hentry with rfl | rfl
    · exact ⟨plain_codes _, plain_str _⟩
    · exact ⟨plain_codes _, plain_str _⟩
  · decide
  · exact List.cons_ne_nil _ _

theorem field_issuedHeader :
    field (sortedFields issuedHeader) "alg" = .str (codes "HS256") ∧
      field (sortedFields issuedHeader) "typ" = .str (codes "JWT") := by
  rw [JsonText.field_sortedFields, JsonText.field_sortedFields]
  exact ⟨rfl, rfl⟩

/-- The header of an issued token is accepted. -/
theorem algAccepted_issuedHeader : AlgAccepted (sortedFields issuedHeader) :=
  ⟨"HS256", List.mem_cons_self, field_issuedHeader.1⟩

theorem plain_int {n : Int} (h : ¬tooLong n) : (Json.int n).Plain := Nat.le_of_not_lt h

theorem plain_issuedClaims {p : HmacTokenProvider} {audience : String} (hissued : ¬tooLong issued)
    (hexp : ¬tooLong (issued + ttlS ttlMs)) :
    JsonText.PlainFields (p.issuedClaims issued jti subject audience ttlMs role) := by
  intro entry hentry
  rcases List.mem_append.mp hentry with hentry | hentry
  · simp only [List.mem_cons, List.not_mem_nil, or_false] at hentry
    rcases hentry with rfl | rfl | rfl | rfl | rfl | rfl | rfl
    · exact ⟨plain_codes _, plain_str _⟩
    · exact ⟨plain_codes _, plain_str _⟩
    · exact ⟨plain_codes _, plain_str _⟩
    · exact ⟨plain_codes _, plain_str _⟩
    · exact ⟨plain_codes _, plain_int hissued⟩
    · exact ⟨plain_codes _, plain_int hissued⟩
    · exact ⟨plain_codes _, plain_int hexp⟩
  · cases role with
    | none => cases hentry
    | some role =>
      rw [List.mem_singleton.mp hentry]
      exact ⟨plain_codes _, plain_str _⟩

theorem readsAs_issuedClaims {p : HmacTokenProvider} {audience : String} (hissued : ¬tooLong issued)
    (hexp : ¬tooLong (issued + ttlS ttlMs)) :
    ReadsAs codecs depth
      (b64uEncode (encodeUtf8 (dumps (.dict
        (p.issuedClaims issued jti subject audience ttlMs role)))))
      (sortedFields (p.issuedClaims issued jti subject audience ttlMs role)) := by
  apply readsAs_dumps
  · exact plain_issuedClaims hissued hexp
  · have hkeys : (p.issuedClaims issued jti subject audience ttlMs role).map Prod.fst =
        ["iss", "aud", "sub", "jti", "iat", "nbf", "exp"].map codes ++
          (roleClaims role).map Prod.fst := rfl
    rw [hkeys]
    cases role with
    | none => decide
    | some role =>
      have hrole : (roleClaims (some role)).map Prod.fst = [codes roleClaim] := rfl
      rw [hrole]
      decide
  · exact List.cons_ne_nil _ _

/-- The claims of an issued token hold from its issue to the end of its lifetime. -/
theorem claimsHold_issued_iff {p issuing : HmacTokenProvider} {now : Int}
    {audience audience' : String} :
    ClaimsHold p now (sortedFields (issuing.issuedClaims issued jti subject audience ttlMs role))
        audience' ↔
      issuing.issuer = p.issuer ∧ audience = audience' ∧ issued ≤ now + leewayS ∧
        now < issued + ttlS ttlMs + leewayS := by
  have hfield : ∀ key : String, ∀ value : Json, value.sorted = value →
      field (issuing.issuedClaims issued jti subject audience ttlMs role) key = value →
        field (sortedFields (issuing.issuedClaims issued jti subject audience ttlMs role)) key =
          value := by
    intro key value hsorted hvalue
    rw [JsonText.field_sortedFields, hvalue, hsorted]
  have hiss := hfield "iss" (.str (codes issuing.issuer)) rfl rfl
  have haud := hfield "aud" (.str (codes audience)) rfl rfl
  have hexp := hfield "exp" (.int (issued + ttlS ttlMs)) rfl rfl
  have hnbf := hfield "nbf" (.int issued) rfl rfl
  constructor
  · rintro ⟨iss, aud, exp, nbf⟩
    rw [hiss] at iss
    rw [haud, ForAudience] at aud
    rw [hexp] at exp
    rw [hnbf] at nbf
    refine ⟨codes_injective (Json.str.inj iss), ?_, nbf issued rfl, ?_⟩
    · rcases aud with haud | ⟨items, hitems, -⟩
      · exact codes_injective (Json.str.inj haud)
      · cases hitems
    · obtain ⟨exp, hsome, hnow⟩ := exp
      obtain rfl := Option.some.inj hsome
      exact hnow
  · rintro ⟨hissuer, rfl, hissued, hnow⟩
    refine ⟨by rw [hiss, hissuer], Or.inl haud, ⟨_, by rw [hexp]; rfl, hnow⟩, ?_⟩
    intro nbf hsome
    rw [hnbf] at hsome
    obtain rfl := Option.some.inj hsome
    exact hissued

/-- Texts without a point are the segments of the token they are joined to. -/
theorem splitOn_join {header claims signature : List Char} (hheader : '.' ∉ header)
    (hclaims : '.' ∉ claims) (hsignature : '.' ∉ signature) :
    ((header ++ '.' :: claims) ++ '.' :: signature).splitOn '.' = [header, claims, signature] := by
  have hjoin : (header ++ '.' :: claims) ++ '.' :: signature =
      ['.'].intercalate [header, claims, signature] := by
    simp [List.intercalate, List.intersperse]
  rw [hjoin, List.splitOn_intercalate]
  · intro text htext
    simp only [List.mem_cons, List.not_mem_nil, or_false] at htext
    rcases htext with rfl | rfl | rfl
    · exact hheader
    · exact hclaims
    · exact hsignature
  · exact List.cons_ne_nil _ _

theorem ascii_issued (header claims : List UInt8) :
    ∀ ch ∈ b64uEncode header ++ '.' :: b64uEncode claims, ch.toNat < 128 := by
  intro ch hch
  rcases List.mem_append.mp hch with hch | hch
  · exact Base64.ascii_of_mem_strip hch
  · rcases List.mem_cons.mp hch with rfl | hch
    · decide
    · exact Base64.ascii_of_mem_strip hch

/-- What is signed of a token that is issued. -/
def HmacTokenProvider.issuedInput (p : HmacTokenProvider) (issued : Int)
    (jti subject audience : String) (ttlMs : Option Int) (role : Option String) : List Char :=
  b64uEncode (encodeUtf8 (dumps (.dict issuedHeader))) ++
    '.' :: b64uEncode (encodeUtf8 (dumps (.dict
      (p.issuedClaims issued jti subject audience ttlMs role))))

/-- The tokens that are issued. -/
theorem issue_eq_ok {p : HmacTokenProvider} {audience : String} :
    p.issue hmac issued jti subject audience ttlMs role = .ok token ↔
      (¬tooLong issued ∧ ¬tooLong (issued + ttlS ttlMs)) ∧ ∃ message,
        asciiBytes (p.issuedInput issued jti subject audience ttlMs role) = some message ∧
        p.issuedInput issued jti subject audience ttlMs role ++
          '.' :: b64uEncode (hmac p.current message) = token := by
  have hascii : ∀ ch ∈ p.issuedInput issued jti subject audience ttlMs role, ch.toNat < 128 :=
    ascii_issued _ _
  obtain ⟨message, hmessage⟩ := Option.isSome_iff_exists.mp (asciiBytes_isSome.mpr hascii)
  unfold HmacTokenProvider.issue
  by_cases hlong : tooLong issued ∨ tooLong (issued + ttlS ttlMs)
  · rw [if_pos hlong]
    exact iff_of_false (fun h => by cases h) fun h => absurd hlong (not_or.mpr h.1)
  rw [if_neg hlong]
  dsimp only
  rw [bind_eq_ok, ← HmacTokenProvider.issuedInput, sign, hmessage]
  constructor
  · rintro ⟨mac, hmac', htoken⟩
    obtain rfl := Except.ok.inj hmac'
    exact ⟨not_or.mp hlong, message, rfl, pure_eq_ok.mp htoken⟩
  · rintro ⟨-, message', hmessage', htoken⟩
    obtain rfl := Option.some.inj hmessage'
    exact ⟨_, rfl, pure_eq_ok.mpr htoken⟩

/-- When an issued token is verified, and with which claims. -/
theorem verify_issued {p issuing : HmacTokenProvider} {now : Int} {audience audience' : String}
    {message : List UInt8} (hlong : ¬tooLong issued ∧ ¬tooLong (issued + ttlS ttlMs))
    (hmessage : asciiBytes (issuing.issuedInput issued jti subject audience ttlMs role) =
      some message) :
    p.verify codecs depth hmac now (issuing.issuedInput issued jti subject audience ttlMs role ++
        '.' :: b64uEncode (hmac issuing.current message)) audience' = .ok claims ↔
      (∃ key, some key ∈ p.keys ∧ hmac issuing.current message = hmac key message) ∧
      (issuing.issuer = p.issuer ∧ audience = audience' ∧ issued ≤ now + leewayS ∧
        now < issued + ttlS ttlMs + leewayS) ∧
      claims = sortedFields (issuing.issuedClaims issued jti subject audience ttlMs role) := by
  have hsplit := splitOn_join
    (Base64.point_not_mem_strip (encodeUtf8 (dumps (.dict issuedHeader))))
    (Base64.point_not_mem_strip (encodeUtf8 (dumps (.dict
      (issuing.issuedClaims issued jti subject audience ttlMs role)))))
    (Base64.point_not_mem_strip (hmac issuing.current message))
  have hreads := @readsAs_issuedClaims _ jti subject _ role codecs depth issuing audience
    hlong.1 hlong.2
  rw [verify_eq_ok_iff]
  constructor
  · rintro ⟨_, _, _, header, htoken, hheader, halg, htyp,
      ⟨message', mac, key, hmessage', hmac, hkey, rfl⟩, hclaims, hhold⟩
    -- A token has one reading: its segments are the ones that were joined.
    obtain ⟨rfl, rfl, rfl⟩ : _ ∧ _ ∧ _ := by simpa using hsplit.symm.trans htoken
    obtain rfl := Option.some.inj (hmessage.symm.trans hmessage')
    obtain rfl := hclaims.unique hreads
    exact ⟨⟨key, hkey, (decodes_b64uEncode _).unique hmac⟩, claimsHold_issued_iff.mp hhold, rfl⟩
  · rintro ⟨⟨key, hkey, hmac⟩, hhold, rfl⟩
    exact ⟨_, _, _, sortedFields issuedHeader, hsplit, readsAs_issuedHeader,
      algAccepted_issuedHeader, field_issuedHeader.2,
      ⟨message, _, key, hmessage, decodes_b64uEncode _, hkey, hmac⟩, hreads,
      claimsHold_issued_iff.mpr hhold⟩

/-- **Issued tokens** are accepted for their audience until their lifetime and the leeway are over,
by every provider of the same issuer that has the key installed, as the current or the previous
one. -/
theorem verify_issue (codecs : Codecs) (depth : Nat) (hmac : Hmac) (p : HmacTokenProvider)
    (now : Int) (token : List Char) (audience : String) :
    AcceptsIssued codecs depth hmac p now token audience := by
  intro issuing issued jti subject ttlMs role hissuer hkey hissue hissued hnow
  obtain ⟨hlong, message, hmessage, rfl⟩ := issue_eq_ok.mp hissue
  have hleeway : (0 : Int) ≤ leewayS := by decide
  exact ⟨_, (verify_issued hlong hmessage).mpr
    ⟨⟨issuing.current, hkey, rfl⟩, ⟨hissuer, rfl, by omega, hnow⟩, rfl⟩⟩

/-- **Issue and verify** meet exactly: an issued token is verified, with the claims it was issued
with, if and only if its issuer and audience are the ones asked for, the clock is between its issue
and the end of its lifetime, give or take the leeway, and an installed key signs as its own did. -/
theorem verify_issued_iff (codecs : Codecs) (depth : Nat) (hmac : Hmac)
    (issuing p : HmacTokenProvider) (issued now : Int) (jti subject audience audience' : String)
    (ttlMs : Option Int) (role : Option String) (claims : Fields) :
    (issuing.issue hmac issued jti subject audience ttlMs role >>= fun token =>
        p.verify codecs depth hmac now token audience') = .ok claims ↔
      (¬tooLong issued ∧ ¬tooLong (issued + ttlS ttlMs)) ∧ ∃ message,
        asciiBytes (issuing.issuedInput issued jti subject audience ttlMs role) = some message ∧
        (∃ key, some key ∈ p.keys ∧ hmac issuing.current message = hmac key message) ∧
        (issuing.issuer = p.issuer ∧ audience = audience' ∧ issued ≤ now + leewayS ∧
          now < issued + ttlS ttlMs + leewayS) ∧
        claims = sortedFields (issuing.issuedClaims issued jti subject audience ttlMs role) := by
  rw [bind_eq_ok]
  constructor
  · rintro ⟨token, hissue, hverify⟩
    obtain ⟨hlong, message, hmessage, rfl⟩ := issue_eq_ok.mp hissue
    exact ⟨hlong, message, hmessage, (verify_issued hlong hmessage).mp hverify⟩
  · rintro ⟨hlong, message, hmessage, hverifies⟩
    exact ⟨_, issue_eq_ok.mpr ⟨hlong, message, hmessage, rfl⟩,
      (verify_issued hlong hmessage).mpr hverifies⟩

/-! ### The exceptions that escape -/

/-- **Totality of `verify`**: it answers or raises a `TokenError`, it returns the claims of the
tokens that are to be accepted, and it accepts what `issue` produced, if and only if the token is
none of those whose verification ends in another exception. -/
theorem verify_total_iff (codecs : Codecs) (depth : Nat) (hmac : Hmac) (p : HmacTokenProvider)
    (now : Int) (token : List Char) (audience : String) :
    (Answers (p.verify codecs depth hmac now token audience) ∧
        (∀ claims, p.verify codecs depth hmac now token audience = .ok claims ↔
          Accepted codecs depth hmac p now token audience claims) ∧
        AcceptsIssued codecs depth hmac p now token audience) ↔
      ¬Escapes codecs depth hmac p token := by
  constructor
  · rintro ⟨hanswers, -, -⟩ hescapes
    rcases @verify_of_escapes _ _ _ _ now _ audience hescapes with hraised | hraised
    · rw [hraised] at hanswers
      rcases hanswers with ⟨claims, hok⟩ | ⟨error, herror⟩
      · cases hok
      · cases herror
    · rw [hraised] at hanswers
      rcases hanswers with ⟨claims, hok⟩ | ⟨error, herror⟩
      · cases hok
      · cases herror
  · intro hescapes
    refine ⟨?_, fun claims => verify_eq_ok_iff, verify_issue codecs depth hmac p now token audience⟩
    rcases verify_cases codecs depth hmac p now token audience with
      ⟨claims, -, hok⟩ | herror | hraised
    · exact Or.inl ⟨claims, hok⟩
    · exact Or.inr herror
    · exact absurd hraised hescapes

/-- A provider with a key of 32 bytes. -/
def sampleProvider : HmacTokenProvider where
  current := List.replicate 32 0
  previous := none
  issuer := defaultIssuer
  current_length := by decide
  previous_length := by simp
  issuer_ne := by decide

/-- The header that `issue` writes, the claims `é`, and no signature. -/
def accentedToken : List Char :=
  (b64uEncode (encodeUtf8 (dumps (.dict issuedHeader))) ++ ['.', 'é']) ++ ['.']

/-- The codec's exception escapes. -/
theorem accentedToken_not_answered :
    ¬Answers (sampleProvider.verify (fun _ _ => none) 100 (fun key _ => key) 0 accentedToken
      "/orders") := by
  have hsplit : accentedToken.splitOn '.' =
      [b64uEncode (encodeUtf8 (dumps (.dict issuedHeader))), ['é'], []] :=
    splitOn_join (Base64.point_not_mem_strip _) (by decide) List.not_mem_nil
  have hgiven : Decodes [] [] := ⟨fun _ h => absurd h List.not_mem_nil, rfl⟩
  have hinput : ¬∀ ch ∈ b64uEncode (encodeUtf8 (dumps (.dict issuedHeader))) ++ '.' :: ['é'],
      ch.toNat < 128 := by
    intro h
    exact absurd (h 'é' (List.mem_append_right _ (by decide))) (by decide)
  have hraised : sampleProvider.verify (fun _ _ => none) 100 (fun key _ => key) 0 accentedToken
      "/orders" = .error .unicodeEncodeError :=
    verify_of_signature_error hsplit readsAs_issuedHeader algAccepted_issuedHeader
      (verifySignature_of_not_ascii hgiven hinput)
  rw [hraised]
  rintro (⟨claims, hok⟩ | ⟨error, herror⟩)
  · cases hok
  · cases herror

end Lnpl.Drivers.Tokens
