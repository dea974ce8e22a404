import Lnpl.Lib.PyText

/-!
# Source lines and editor positions

The compiler counts the lines of `str.splitlines` and the code points of a line.  The editor counts
the lines that `\n`, `\r\n` and `\r` end, and the UTF-16 code units of a line; `_line_span` turns the
one into the other.
-/

namespace Lnpl.Lsp

open Lib (Breaks wordsAt)
open Lib.JsonText (Text codes)
open Lib.PyText (isWhite lstrip rstrip strip split lineBreaks splitlines units utf16Len)

/-! ### The lexer -/

/-- A significant line of the source. -/
structure Line where
  lineno : Nat
  tokens : List Text
  raw : Text
  indent : Nat

/-- `RESERVED`. -/
def reserved : List String := ["if", "for", "while", "switch"]

/-- `_strip_comment`. -/
def stripComment (text : Text) : Text := text.takeWhile (· ≠ '#'.toNat)

/-- `tokenize`, of the lines from this number on; the error is the message of the `LexError`. -/
def tokenizeFrom (lineno : Nat) : List Text → Except Text (List Line)
  | [] => .ok []
  | raw :: raws =>
    if '\t'.toNat ∈ raw then
      .error (codes ("line " ++ toString lineno ++
        ": tabs are forbidden (RFC-0002 §Block structure)"))
    else if strip (stripComment raw) = [] then tokenizeFrom (lineno + 1) raws
    else
      let tokens := split (strip (stripComment raw))
      match tokens.findSome? fun token => reserved.find? fun word => codes word = token with
      | some word => .error (codes ("line " ++ toString lineno ++ ": '" ++ word ++
          "' is reserved and must not be used (RFC-0002 §Reserved Words)"))
      | none =>
        let body := stripComment raw
        (tokenizeFrom (lineno + 1) raws).map fun lines =>
          ⟨lineno, tokens, raw, body.length - (lstrip body).length⟩ :: lines

/-- `tokenize`. -/
def tokenize (source : Text) : Except Text (List Line) := tokenizeFrom 1 (splitlines source)

/-! ### Positions -/

/-- `_LSP_BREAK`. -/
def lspBreaks : Breaks Nat where
  cr := 13
  lf := 10
  isBreak code := code = 10 || code = 13
  cr_ne_lf := Lib.PyText.cr_ne_lf
  isBreak_cr := rfl
  isBreak_lf := rfl

/-- A position in an editor. -/
structure Position where
  line : Nat
  character : Nat
  deriving DecidableEq, Repr

structure Range where
  start : Position
  «end» : Position
  deriving DecidableEq, Repr

/-- `_lsp_position`; `none` for the `UnicodeEncodeError`. -/
def lspPosition (text : Text) (offset : Nat) : Option Position :=
  let front := text.take offset
  (utf16Len (front.drop (lspBreaks.lastStart front))).map fun character =>
    ⟨(lspBreaks.ends 0 front).length, character⟩

/-- `_zero_range`. -/
def zeroRange : Range := ⟨⟨0, 0⟩, ⟨0, 0⟩⟩

/-- The offset of the line of this number, if there is one, and its text without comment. -/
def lineBody (text : Text) (lineno : Int) : Option (Nat × Text) :=
  if lineno < 1 then none
  else
    let parts := lineBreaks.lines text
    parts[lineno.toNat - 1]?.map fun part =>
      (((parts.take (lineno.toNat - 1)).map List.length).sum, stripComment (lineBreaks.content part))

/-- The offsets that `_line_span` finds, if it does not answer the zero range. -/
def span (text : Text) (lineno : Option Int) (subject : Option Text) : Option (Nat × Nat) := do
  let (base, body) ← lineBody text (← lineno)
  if strip body = [] then none
  else
    match (wordsAt isWhite 0 body).find? fun found => some found.2 = subject with
    | some (start, word) => some (base + start, base + start + word.length)
    | none =>
      some (base + (body.length - (lstrip body).length), base + (rstrip body).length)

/-- `_line_span`. -/
def lineSpan (text : Text) (lineno : Option Int) (subject : Option Text) : Option Range :=
  match span text lineno subject with
  | none => some zeroRange
  | some (start, stop) => do
    let first ← lspPosition text start
    let last ← lspPosition text stop
    return ⟨first, last⟩

/-! ### The editor -/

/-- The offset in the text that an editor goes to. -/
def editorOffset (text : Text) (position : Position) : Option Nat :=
  lspBreaks.offset units text position.line position.character

/-- The offsets that a range covers. -/
def editorOffsets (text : Text) (range : Range) : Option (Nat × Nat) := do
  return (← editorOffset text range.start, ← editorOffset text range.end)

/-- An edit of a document. -/
structure TextEdit where
  range : Range
  newText : Text

/-- The text with the range replaced. -/
def TextEdit.apply (text : Text) (edit : TextEdit) : Option Text :=
  (editorOffsets text edit.range).map fun (start, stop) =>
    text.take start ++ edit.newText ++ text.drop stop

/-- No lone surrogate stands before the end of the span, on the line of the editor. -/
def Encodable (text : Text) (lineno : Option Int) (subject : Option Text) : Prop :=
  ∀ found ∈ span text lineno subject,
    ∀ code ∈ (text.take found.2).drop (lspBreaks.lastStart (text.take found.2)),
      Lib.PyText.isSurrogate code = false

/-- **A range that names a token**: it covers the subject, where that is a token of its line. -/
def NamesToken (text : Text) (lineno : Int) (subject : Text) (range : Range) : Prop :=
  ∀ base body, lineBody text lineno = some (base, body) → subject ∈ split body →
    ∃ front back, body = front ++ subject ++ back ∧
      (front.length, subject) ∈ wordsAt isWhite 0 body ∧
      editorOffsets text range =
        some (base + front.length, base + front.length + subject.length) ∧
      (text.take (base + front.length + subject.length)).drop (base + front.length) = subject

end Lnpl.Lsp
