import Lnpl.Lsp.Positions

/-!
# The language server

Each text that an editor opens or changes is compiled, and the diagnostics are published with the
ranges of the subjects that they name; the quick fix of an unknown verb replaces it by the verb that
the compiler suggests.  What `parse` and `lower` make of the lines is a parameter, and so are the
extensions.
-/

namespace Lnpl.Lsp

open Lib.JsonText (Text codes isDigit numberOf)
open Lib.PyText (isWhite split)

/-! ### The compiler -/

/-- A diagnostic of the compiler; `line` and `subject` may be missing. -/
structure Diagnostic where
  code : Text
  severity : Nat
  message : Text
  subject : Option Text
  suggestion : Option Text
  line : Option Int

/-- The code of a step whose verb derives nothing. -/
def unknownVerb : Text := codes "unknown-verb"

/-- What `lower` adds to its diagnostics. -/
inductive Finding where
  | /-- A step that derives no effect. -/
    underived (line : Line)
  | other (diagnostic : Diagnostic) (h : diagnostic.code ≠ unknownVerb)

/-- A record of an extension. -/
structure Record where
  extension : Text
  bare : Text
  severity : Text
  message : Text
  subject : Option Text
  line : Option Int

/-- What `extension_diagnostic_records` raises. -/
inductive ExtensionFault where
  | /-- `ExtensionDiagnosticsError` -/
    refused (message : Text)
  | /-- What the check of an extension raises. -/
    raised

/-- A lowered source. -/
structure Module where
  findings : List Finding
  extensions : Except ExtensionFault (List Record)

/-- `parse` and `lower` behind the lexer; the error is the message that `_compile` reports. -/
structure Compiler where
  lower : List Line → Text → Except Text Module
  /-- The verb that is nearest to an unknown one: an alias, or the closest match. -/
  suggest : Text → Option Text
  /-- Only the lexer makes lines. -/
  mem_of_underived : ∀ lines uri module line, lower lines uri = .ok module →
    .underived line ∈ module.findings → line ∈ lines

/-- `" ".join(tokens)`. -/
def joined (tokens : List Text) : Text := (codes " ").intercalate tokens

/-- The diagnostic of a finding. -/
def Compiler.diagnostic (compiler : Compiler) : Finding → Diagnostic
  | .underived line =>
    let verb := line.tokens.headD []
    let suffix := match compiler.suggest verb with
      | none => []
      | some suggestion => codes " — did you mean '" ++ suggestion ++ codes "'?"
    { code := unknownVerb
      severity := 2
      message := codes "`" ++ joined line.tokens ++ codes ("` is outside VERB_LEXICON: this step " ++
        "derives no Effect and runs as a descriptive no-op") ++ suffix
      subject := some verb
      suggestion := compiler.suggest verb
      line := some line.lineno }
  | .other diagnostic _ => diagnostic

/-- `_SEVERITY.get(severity, 1)`. -/
def severityOf (severity : Text) : Nat :=
  if severity = codes "warning" then 2 else if severity = codes "info" then 3 else 1

/-- The diagnostic of a record. -/
def Record.diagnostic (record : Record) : Diagnostic where
  code := record.extension ++ codes "/" ++ record.bare
  severity := severityOf record.severity
  message := record.message
  subject := record.subject
  suggestion := none
  line := record.line

/-! ### `_compile` -/

/-- A diagnostic with its range. -/
structure Published where
  diagnostic : Diagnostic
  range : Range

/-- The number that `re.match(r"line (\d+):", message)` finds. -/
def lineOf (message : Text) : Option Int :=
  match (codes "line ").isPrefixOf? message with
  | none => none
  | some rest =>
    if rest.takeWhile isDigit ≠ [] ∧ (rest.dropWhile isDigit).head? = some ':'.toNat then
      some (numberOf (rest.takeWhile isDigit))
    else none

/-- `compile_error`, whose range names the line, but whose data do not. -/
def compileError (text message : Text) : Option Published :=
  (lineSpan text (lineOf message) none).map fun range =>
    ⟨⟨codes "compile-error", 1, message, none, none, none⟩, range⟩

/-- A diagnostic at its line. -/
def place (text : Text) (diagnostic : Diagnostic) : Option Published :=
  (lineSpan text diagnostic.line diagnostic.subject).map fun range => ⟨diagnostic, range⟩

def placeAll (text : Text) : List Diagnostic → Option (List Published)
  | [] => some []
  | diagnostic :: diagnostics => do
    let published ← place text diagnostic
    let rest ← placeAll text diagnostics
    return published :: rest

/-- `_compile`; `none` where an exception leaves it. -/
def compile (compiler : Compiler) (text uri : Text) : Option (List Published) :=
  match tokenize text with
  | .error message => (compileError text message).map fun published => [published]
  | .ok lines =>
    match compiler.lower lines uri with
    | .error message => (compileError text message).map fun published => [published]
    | .ok module =>
      match placeAll text (module.findings.map compiler.diagnostic) with
      | none => none
      | some out =>
        match module.extensions with
        | .error .raised => none
        | .error (.refused message) =>
          (compileError text (codes "extension diagnostics: " ++ message)).map fun published =>
            out ++ [published]
        | .ok records => (placeAll text (records.map Record.diagnostic)).map (out ++ ·)

/-! ### Documents -/

/-- What the server keeps of a text. -/
structure Document where
  text : Text
  diagnostics : List Published

/-- The server, when it has been initialized. -/
structure Session where
  literalSupport : Bool
  documents : Text → Option Document

/-- The data of a diagnostic. -/
structure Data where
  subject : Option Text
  suggestion : Option Text
  line : Option Int

/-- A diagnostic as an editor sends it back, perhaps without its data. -/
structure Selected where
  code : Text
  range : Range
  data : Option Data

/-- `textDocument/codeAction`. -/
structure CodeActionRequest where
  uri : Text
  only : Option (List Text)
  given : List Selected
  range : Option Range

/-- A quick fix: the edit of the document that it was asked for. -/
structure Action where
  title : Text
  diagnostic : Selected
  uri : Text
  edit : TextEdit

def Published.data (published : Published) : Data :=
  ⟨published.diagnostic.subject, published.diagnostic.suggestion, published.diagnostic.line⟩

def Published.selected (published : Published) : Selected :=
  ⟨published.diagnostic.code, published.range, some published.data⟩

/-- The order of positions. -/
def Position.before (a b : Position) : Bool :=
  a.line < b.line || (a.line = b.line && a.character < b.character)

/-- `_intersects`. -/
def intersects (a b : Range) : Bool := !(a.end.before b.start || b.end.before a.start)

/-- The diagnostics that a request is about; `none` for `_InvalidParams`. -/
def chosen (document : Document) (request : CodeActionRequest) : Option (List Selected) :=
  if request.given ≠ [] then some request.given
  else if document.diagnostics.isEmpty then some []
  else request.range.map fun range =>
    (document.diagnostics.filter fun published => intersects published.range range).map
      Published.selected

/-- The action for a diagnostic, if it has a suggestion. -/
def quickFix (document : Document) (uri : Text) (selected : Selected) : Option Action :=
  if selected.code ≠ unknownVerb then none
  else
    let data := match selected.data with
      | some data => some data
      | none => (document.diagnostics.find? fun (published : Published) =>
          published.diagnostic.code = selected.code && published.range = selected.range).map
            Published.data
    match data with
    | none => none
    | some data =>
      match data.suggestion with
      | none => none
      | some suggestion =>
        if suggestion = [] then none
        else some {
          title := codes "Replace '" ++ data.subject.getD (codes "None") ++ codes "' with '" ++
            suggestion ++ codes "'"
          diagnostic := selected
          uri := uri
          edit := ⟨selected.range, suggestion⟩ }

/-- `_code_action`. -/
def codeAction (session : Session) (request : CodeActionRequest) : Option (List Action) :=
  if !session.literalSupport then some []
  else
    match session.documents request.uri with
    | none => some []
    | some document =>
      if request.only.any fun kinds => codes "quickfix" ∉ kinds then some []
      else (chosen document request).map fun given =>
        given.filterMap (quickFix document request.uri)

/-! ### Messages -/

/-- What an editor sends about its documents; the last of the changes has the whole text. -/
inductive Message where
  | didOpen (uri text : Text) (version : Option Int)
  | didChange (uri : Text) (earlier : List Text) (text : Text) (version : Option Int)
  | didClose (uri : Text)
  | codeAction (request : CodeActionRequest)

/-- What the server sends. -/
inductive Reply where
  | publishDiagnostics (uri : Text) (version : Option Int) (diagnostics : List Published)
  | /-- The response to a request for actions, `none` for the error. -/
    actions (result : Option (List Action))

/-- `documents[uri] = document`. -/
def Session.put (session : Session) (uri : Text) (document : Option Document) : Session :=
  { session with
    documents := fun other => if other = uri then document else session.documents other }

/-- `_publish`; what an exception of `_compile` leaves is only logged. -/
def publish (compiler : Compiler) (session : Session) (uri text : Text) (version : Option Int) :
    Session × List Reply :=
  match compile compiler text uri with
  | none => (session, [])
  | some diagnostics =>
    (session.put uri (some ⟨text, diagnostics⟩), [.publishDiagnostics uri version diagnostics])

/-- One message. -/
def handle (compiler : Compiler) (session : Session) : Message → Session × List Reply
  | .didOpen uri text version => publish compiler session uri text version
  | .didChange uri _ text version => publish compiler session uri text version
  | .didClose uri => (session.put uri none, [.publishDiagnostics uri none []])
  | .codeAction request => (session, [.actions (codeAction session request)])

/-- The replies to each message of a run. -/
def run (compiler : Compiler) (session : Session) : List Message → List (List Reply)
  | [] => []
  | message :: messages =>
    (handle compiler session message).2 :: run compiler (handle compiler session message).1 messages

/-- The server that has just been initialized. -/
def Session.initial (literalSupport : Bool) : Session := ⟨literalSupport, fun _ => none⟩

/-! ### What an editor relies on -/

/-- A diagnostic that is to be published, and the line where it is placed. -/
structure Report where
  diagnostic : Diagnostic
  lineno : Option Int

def Report.ofDiagnostic (diagnostic : Diagnostic) : Report := ⟨diagnostic, diagnostic.line⟩

def Report.compileError (message : Text) : Report :=
  ⟨⟨codes "compile-error", 1, message, none, none, none⟩, lineOf message⟩

/-- What is to be published for a text, unless an extension raises. -/
def reports (compiler : Compiler) (text uri : Text) : Option (List Report) :=
  match tokenize text with
  | .error message => some [.compileError message]
  | .ok lines =>
    match compiler.lower lines uri with
    | .error message => some [.compileError message]
    | .ok module =>
      let found := module.findings.map fun finding => .ofDiagnostic (compiler.diagnostic finding)
      match module.extensions with
      | .error .raised => none
      | .error (.refused message) =>
        some (found ++ [.compileError (codes "extension diagnostics: " ++ message)])
      | .ok records =>
        some (found ++ records.map fun record => .ofDiagnostic record.diagnostic)

/-- The diagnostics of the text, whose ranges cover the tokens that they name. -/
def Describes (compiler : Compiler) (text uri : Text) (diagnostics : List Published) : Prop :=
  reports compiler text uri ≠ none ∧
    diagnostics.map Published.diagnostic =
      ((reports compiler text uri).getD []).map Report.diagnostic ∧
    ∀ published ∈ diagnostics, ∀ lineno subject, published.diagnostic.line = some lineno →
      published.diagnostic.subject = some subject → NamesToken text lineno subject published.range

/-- The edit replaces the first token of the line that the diagnostic is about by its suggestion,
and nothing else. -/
def FixesVerb (text : Text) (published : Published) (edit : TextEdit) : Prop :=
  ∃ lineno base front verb back suggestion,
    published.diagnostic.line = some lineno ∧
    lineBody text lineno = some (base, front ++ verb ++ back) ∧
    (∀ code ∈ front, isWhite code = true) ∧
    (split (front ++ verb ++ back)).head? = some verb ∧
    published.diagnostic.suggestion = some suggestion ∧
    (text.take (base + front.length + verb.length)).drop (base + front.length) = verb ∧
    edit.apply text = some (text.take (base + front.length) ++ suggestion ++
      text.drop (base + front.length + verb.length))

/-- The diagnostic of an action is a published one, with its data or without. -/
def Echoes (selected : Selected) (published : Published) : Prop :=
  selected.code = published.diagnostic.code ∧ selected.range = published.range ∧
    (selected.data = none ∨ selected.data = some published.data)

/-- What an editor has: its texts, and what was published last for each. -/
abbrev Editor := Text → Option (Text × List Published)

/-- The editor when a message has been replied to. -/
def Editor.after (editor : Editor) (message : Message) (replies : List Reply) : Editor :=
  match message, replies with
  | .didOpen uri text _, [.publishDiagnostics _ _ diagnostics] =>
    fun other => if other = uri then some (text, diagnostics) else editor other
  | .didChange uri _ text _, [.publishDiagnostics _ _ diagnostics] =>
    fun other => if other = uri then some (text, diagnostics) else editor other
  | .didClose uri, _ => fun other => if other = uri then none else editor other
  | _, _ => editor

/-- The replies that a message is to have: a text is followed by one publication of its diagnostics,
and what a quick fix replaces is the verb. -/
def Answers (compiler : Compiler) (editor : Editor) : Message → List Reply → Prop
  | .didOpen uri text version, replies => ∃ diagnostics,
      replies = [.publishDiagnostics uri version diagnostics] ∧
        Describes compiler text uri diagnostics
  | .didChange uri _ text version, replies => ∃ diagnostics,
      replies = [.publishDiagnostics uri version diagnostics] ∧
        Describes compiler text uri diagnostics
  | .didClose uri, replies => replies = [.publishDiagnostics uri none []]
  | .codeAction request, replies => ∃ result, replies = [.actions result] ∧
      ∀ actions, result = some actions → ∀ action ∈ actions, ∀ text diagnostics,
        editor request.uri = some (text, diagnostics) → ∀ published ∈ diagnostics,
          Echoes action.diagnostic published → FixesVerb text published action.edit

/-- **A faithful run**: each message has the replies that it is to have. -/
def Faithful (compiler : Compiler) (editor : Editor) : List Message → List (List Reply) → Prop
  | [], replies => replies = []
  | message :: messages, replies => ∃ first rest, replies = first :: rest ∧
      Answers compiler editor message first ∧
      Faithful compiler (editor.after message first) messages rest

/-- What is reported on the text can be placed: no extension raises, and no lone surrogate stands on
the editor's line before the end of a span. -/
def Sendable (compiler : Compiler) : Message → Prop
  | .didOpen uri text _ => ∃ found, reports compiler text uri = some found ∧
      ∀ report ∈ found, Encodable text report.lineno report.diagnostic.subject
  | .didChange uri _ text _ => ∃ found, reports compiler text uri = some found ∧
      ∀ report ∈ found, Encodable text report.lineno report.diagnostic.subject
  | _ => True

end Lnpl.Lsp
