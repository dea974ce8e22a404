import Lnpl.Lib.Nesting

/-!
# The nesting guard of the HTTP transport

`_exceeds_max_nesting` reads the bytes of a body once, without recursion, before the parser sees
them, and `_read_message` parses what it lets pass.
-/

namespace Lnpl.Mcp

open Lib.JsonText (Text Fields decodeUtf8 loadsText scanOnce shapeText skipSpace)

/-- `MAX_JSON_NESTING_DEPTH`. -/
def maxJsonNestingDepth : Int := 64

/-- The variables of the loop of `_exceeds_max_nesting`. -/
structure NestingScan where
  depth : Nat
  maxDepth : Nat
  inString : Bool
  escapeNext : Bool

/-- The loop of `_exceeds_max_nesting`. -/
def exceedsFrom (limit : Int) (s : NestingScan) : List UInt8 → Bool
  | [] => s.maxDepth > limit
  | byte :: data =>
    if s.inString then
      if s.escapeNext then exceedsFrom limit { s with escapeNext := false } data
      else if byte = 0x5c then exceedsFrom limit { s with escapeNext := true } data
      else if byte = 0x22 then exceedsFrom limit { s with inString := false } data
      else exceedsFrom limit s data
    else if byte = 0x22 then exceedsFrom limit { s with inString := true } data
    else if byte = 0x7b ∨ byte = 0x5b then
      let depth := s.depth + 1
      if depth > s.maxDepth then
        if (depth : Int) > limit then true
        else exceedsFrom limit { s with
          depth := depth
          maxDepth := depth } data
      else exceedsFrom limit { s with depth := depth } data
    else if byte = 0x7d ∨ byte = 0x5d then
      if s.depth > 0 then exceedsFrom limit { s with depth := s.depth - 1 } data
      else exceedsFrom limit s data
    else exceedsFrom limit s data

/-- `_exceeds_max_nesting`. -/
def exceedsMaxNesting (data : List UInt8) (limit : Int) : Bool :=
  exceedsFrom limit ⟨0, 0, false, false⟩ data

/-- `data.decode("utf-8")`; a surrogate is no UTF-8. -/
def decode (data : List UInt8) : Option Text :=
  (decodeUtf8 data).filter fun text => !text.any fun code => 0xd800 ≤ code && code ≤ 0xdfff

/-- `_read_message` of a body whose headers have passed; the error is the message of the 400. -/
def readMessage (room : Nat) (data : List UInt8) : Except String Fields :=
  if exceedsMaxNesting data maxJsonNestingDepth then .error "invalid JSON"
  else
    match decode data with
    | none => .error "invalid JSON"
    | some text =>
      match loadsText room text with
      | .error _ => .error "invalid JSON"
      | .ok (.dict fields) => .ok fields
      | .ok _ => .error "a JSON-RPC message must be a single object"

/-- **The guard**: of what the parser accepts it refuses exactly what is nested deeper than the
limit, and behind what it lets pass no parser meets a container that stands deeper: not one that
reads the text, nor one that reads the bytes as they are. -/
structure GuardsNesting (data : List UInt8) (limit : Int) : Prop where
  exact : ∀ text room value, decode data = some text → loadsText room text = .ok value →
    ∃ shape, shapeText room text = .ok shape ∧
      (exceedsMaxNesting data limit = true ↔ limit < shape.nesting)
  bounds : exceedsMaxNesting data limit = false → ∀ room : Nat, limit ≤ room →
    (∀ text, decode data = some text → loadsText room text ≠ .error .recursionError) ∧
      scanOnce room (skipSpace (data.map UInt8.toNat)) ≠ .error .recursionError

end Lnpl.Mcp
