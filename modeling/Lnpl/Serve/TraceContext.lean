import Lnpl.Lib.JsonText

/-!
# `traceparent`

`parse_traceparent` and `format_traceparent`, on any str.  A header of the version `00` is four
fields between dashes; one of a higher version may have more of them.
-/

namespace Lnpl.Serve.TraceContext

open Lib.JsonText (Text codes)

/-- `_HEX`. -/
def hex : Text := codes "0123456789abcdef"

/-- `_is_lower_hex`. -/
def isLowerHex (value : Text) (length : Nat) : Bool := value.length = length && value.all hex.contains

def dash : Nat := '-'.toNat

def zeros (length : Nat) : Text := List.replicate length '0'.toNat

/-- What `parse_traceparent` returns. -/
structure Fields where
  version : Text
  traceId : Text
  parentId : Text
  flags : Text
  deriving DecidableEq

/-- `parse_traceparent` of a str. -/
def parseTraceparent (raw : Text) : Option Fields :=
  if raw = [] then none
  else
    match raw.splitOn dash with
    | version :: traceId :: parentId :: flags :: _ =>
      if !isLowerHex version 2 then none
      else if !isLowerHex traceId 32 then none
      else if !isLowerHex parentId 16 then none
      else if !isLowerHex flags 2 then none
      else if version = codes "ff" then none
      else if traceId = zeros 32 then none
      else if parentId = zeros 16 then none
      else some ⟨version, traceId, parentId, flags⟩
    | _ => none

/-- The fields between dashes. -/
def Fields.text (f : Fields) : Text :=
  f.version ++ dash :: (f.traceId ++ dash :: (f.parentId ++ dash :: f.flags))

/-- `format_traceparent`; the error is the text of the `ValueError`. -/
def formatTraceparent (traceId spanId flags : Text) : Except String Text :=
  if !isLowerHex traceId 32 then .error "trace_id must be 32 lowercase hex characters"
  else if !isLowerHex spanId 16 then .error "span_id must be 16 lowercase hex characters"
  else if !isLowerHex flags 2 then .error "flags must be 2 lowercase hex characters"
  else .ok (Fields.text ⟨codes "00", traceId, spanId, flags⟩)

/-- What `new_span_id` returns. -/
structure SpanId where
  text : Text
  lowerHex : isLowerHex text 16 = true
  nonzero : text ≠ zeros 16

/-! ### The grammar -/

/-- Lower-case hexadecimal fields, the ids not zero, of a version other than `ff`. -/
structure Fields.Valid (f : Fields) : Prop where
  version : isLowerHex f.version 2 = true
  traceId : isLowerHex f.traceId 32 = true
  parentId : isLowerHex f.parentId 16 = true
  flags : isLowerHex f.flags 2 = true
  notFf : f.version ≠ codes "ff"
  traceNonzero : f.traceId ≠ zeros 32
  parentNonzero : f.parentId ≠ zeros 16

/-- The header is the four fields, or these with others behind them and of a version above `00`. -/
def Grammar (raw : Text) (f : Fields) : Prop :=
  f.Valid ∧ (raw = f.text ∨ (f.version ≠ codes "00" ∧ ∃ more, raw = f.text ++ dash :: more))

/-- **The law**: what the grammar has is accepted and nothing else, and what is sent on of an
accepted header is accepted with the same ids. -/
structure TraceparentLaw (raw : Text) : Prop where
  accepts : ∀ f, parseTraceparent raw = some f ↔ Grammar raw f
  again : ∀ f, parseTraceparent raw = some f → ∀ span : SpanId, ∃ text,
    formatTraceparent f.traceId span.text f.flags = .ok text ∧
      parseTraceparent text = some ⟨codes "00", f.traceId, span.text, f.flags⟩

/-- Of the version `00`, with fields behind the four. -/
def HasMoreFields (raw : Text) : Prop :=
  ∃ f : Fields, f.Valid ∧ f.version = codes "00" ∧ ∃ more, raw = f.text ++ dash :: more

end Lnpl.Serve.TraceContext
