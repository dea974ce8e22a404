import Lnpl.Lib.JsonLine
import Lnpl.Lib.PyText

/-!
# The tools of the MCP server

The names that `HANDLERS` calls and the texts that `tools/list` answers.
-/

namespace Lnpl.Mcp

open Lib.JsonText (Text Json Fields codes)

/-! ### Values -/

/-- A str. -/
def str (text : String) : Json := .str (codes text)

/-- A dict of these items. -/
def dict (items : List (String × Json)) : Json :=
  .dict (items.map fun item => (codes item.1, item.2))

/-! ### Handlers -/

/-- The keys of `HANDLERS`. -/
inductive Tool where
  | compile
  | kbRoute
  | spec
  | vocabulary
  | capabilities
  | run
  | openapi
  | generate
  deriving DecidableEq, Repr

/-- The name that a client calls. -/
def Tool.name : Tool → String
  | .compile => "lnpl_compile"
  | .kbRoute => "lnpl_kb_route"
  | .spec => "lnpl_spec"
  | .vocabulary => "lnpl_vocabulary"
  | .capabilities => "lnpl_capabilities"
  | .run => "lnpl_run"
  | .openapi => "lnpl_openapi"
  | .generate => "lnpl_generate"

/-- `sorted(HANDLERS)`. -/
def handlers : List Tool :=
  [.capabilities, .compile, .generate, .kbRoute, .openapi, .run, .spec, .vocabulary]

/-! ### Specifications -/

/-- A property of an input schema. -/
def property (type description : String) : Json :=
  dict [("type", str type), ("description", str description)]

/-- A tool as `tools/list` names it; `required` stands in the schema if something is. -/
def tool (name description : String) (properties : List (String × Json))
    (required : List String) : Json :=
  dict [("name", str name), ("description", str description),
    ("inputSchema", dict ([("type", str "object"), ("properties", dict properties)] ++
      if required = [] then [] else [("required", .list (required.map str))]))]

/-- `_TEXT_ARGUMENT`. -/
def textArgument : Json :=
  property "string" "LNPL source as text. Use this to check a draft before writing it to disk."

/-- `_SOURCE_PATH_ARGUMENT`. -/
def sourcePathArgument : Json :=
  property "string"
    ("Path to a .lnpl file or a directory of them. Give either `text` or `path`, not both.")

/-- `_MODULE_ARGUMENT`. -/
def moduleArgument : Json :=
  property "string"
    ("Module name for the lowered IR (default: mcp for `text`, the file or directory name " ++
     "for `path`).")

/-- `TOOLS`. -/
def tools : List Json := [
  tool "lnpl_compile"
    ("Compile LNPL source to the Semantic IR and return its diagnostics as structured " ++
     "records. Use this instead of shelling out to `lnpl compile`: that command writes " ++
     "diagnostics to stderr and exits 0, so an exit-code check misses every warning. An " ++
     "`unknown-verb` record means that step derives no effect and does nothing at runtime.")
    [
      ("text", textArgument),
      ("path", property "string"
          ("Path to a .lnpl file, or to a directory (its *.lnpl are merged in " ++
           "filename-sorted order — RFC-0031, issue #77). Give either `text` or `path`, " ++
           "not both.")),
      ("module", property "string" "Module name for the lowered IR (default: mcp).")] [],
  tool "lnpl_kb_route"
    ("Route one task description to the knowledge-base documents that govern it " ++
     "(RFC-0005). Consult this before making an architecture, naming, performance, " ++
     "security, or database choice in LNPL.")
    [
      ("task", property "string" "One-line description of the decision you are about to make."),
      ("root", property "string" "Knowledge-base root (default: the bundled kb/).")] ["task"],
  tool "lnpl_spec"
    ("Extract `spec` blocks from LNPL source and run them against the deterministic fake " ++
     "backend (no real I/O, no side effects — the same fake backend `lnpl spec --run` " ++
     "uses). Returns one status per case, with the expected-vs-actual detail for any case " ++
     "that fails. Source with no `spec` block is not an error: the response reports " ++
     "`spec_present: false` with an empty case list.")
    [
      ("text", textArgument),
      ("path", property "string" "Path to a .lnpl file. Give either `text` or `path`, not both."),
      ("module", property "string" "Module name for the lowered IR (default: mcp).")] [],
  tool "lnpl_vocabulary"
    ("Return the vendor-neutral vocabulary manifest — verbs, keywords, semantic types, " ++
     "declaration clauses, the enforcement matrix, diagnostic codes, and reserved words. " ++
     "Use this instead of the Claude Code plugin's Korean reference markdown when no " ++
     "plugin is loaded: the closed lexicon is not in any model's training data, so a " ++
     "plausible-sounding verb parses and silently does nothing (issue #36) unless it is " ++
     "checked against this manifest first.")
    [] [],
  tool "lnpl_capabilities"
    ("Return the installed-extension catalog: for each of the ten slots (repository, " ++
     "cache, network, token, exporter, generators, diagnostics, kb, publishers, secrets), " ++
     "the built-in names and every registered entry-point name with whether it actually " ++
     "loads. Use this instead of trying a " ++
     "`--backend`/`--cache`/`--network`/`--token-provider`/`--trace-exporter` value and " ++
     "reading the failure — discovery here never fails: a broken registration is listed " ++
     "`loadable: false` rather than raising (issue #134).")
    [] [],
  tool "lnpl_run"
    ("Run one workflow of LNPL source on the interpreter's deterministic fake backend — " ++
     "in-memory repository, fake network, fake cache, virtual clock; no real I/O and " ++
     "nothing written — and return the same \x7bresult, trace, diagnostics\x7d document " ++
     "`lnpl run --json` prints. `diagnostics` is always present (an empty list when " ++
     "clean). Use this instead of shelling out to `lnpl run`, whose diagnostics go to " ++
     "stderr.")
    [
      ("text", textArgument),
      ("path", sourcePathArgument),
      ("module", moduleArgument),
      ("workflow", property "string"
          "Workflow node id to run, e.g. wf.save (default: the first workflow)."),
      ("payload", property "object"
          "Input payload (default: a sample payload derived from the entities)."),
      ("no_row", property "boolean"
          ("Start from an empty repository instead of the default seeded rows (default: " ++
           "false)."))] [],
  tool "lnpl_openapi"
    ("Return the OpenAPI 3.1 document of LNPL source as text — byte-identical to what " ++
     "`lnpl openapi <path>` prints for the same file. Nothing is written.")
    [
      ("text", textArgument),
      ("path", sourcePathArgument),
      ("module", moduleArgument)] [],
  tool "lnpl_generate"
    ("Run the built-in `compose` or `k8s` deployment generator on LNPL source and return " ++
     "\x7bgenerator, files: \x7bname: text\x7d, warnings\x7d — the same bytes `lnpl " ++
     "generate <name> --out DIR` writes, plus any skipped-capability warnings. Nothing is " ++
     "written. `options` takes the `--set` keys as strings (compose: image, port, source, " ++
     "postgres_image, redis_image; k8s: image, name, replicas, cpu_request, cpu_limit, " ++
     "memory, ingress_host, hpa_min, hpa_max, hpa_cpu, pdb, network_policy, egress_cidrs).")
    [
      ("generator", dict [("type", str "string"), ("enum", .list [str "compose", str "k8s"]),
          ("description", str "Which generator to run.")]),
      ("text", textArgument),
      ("path", sourcePathArgument),
      ("module", moduleArgument),
      ("options", dict [("type", str "object"),
          ("additionalProperties", dict [("type", str "string")]),
          ("description", str "Generator options as strings, the keys `--set` accepts.")])] ["generator"]]

end Lnpl.Mcp

/-!
## The stdio server

`serve` reads a JSON-RPC message from each line and writes the response of `handle` as a line, to a
stream that is encoded as UTF-8.  The tools are a parameter, with what they see of the world when a
line comes, and so are the texts of Python: of its floats, its `repr` and its faults.
-/

namespace Lnpl.Mcp

open Lib.JsonText (Text Json Fields codes field loadsText dumpsRaw isFinite IsFloat)
open Lib.Percent (Scalar)
open Lib.PyText (strip)

/-! ### The language -/

/-- What `handle` raises. -/
inductive Failure where
  | /-- `value.get` of what is no dict. -/
    attributeError (value : Json)
  | /-- `HANDLERS.get(name)` of a name that has no hash. -/
    typeError (name : Json)
  | /-- `repr(value)` of what is nested too deep. -/
    recursionError (value : Json)
  | /-- `json.dumps(payload)` of what a tool answered; `trace` is its traceback. -/
    dumps (trace : Text)

/-- The interpreter: how many containers `json` follows inside each other, and the texts that it
makes. -/
structure Python where
  readRoom : Nat
  writeRoom : Nat
  /-- `float.__repr__` of the float that a literal is. -/
  spell : Text → Text
  repr : Json → Option Text
  /-- `str(exc)` of the `ValueError` for a line. -/
  fault : Text → Text
  traceback : Failure → Text
  /-- There is room for what the server itself answers. -/
  le_writeRoom : 16 ≤ writeRoom
  spell_finite : ∀ literal, isFinite literal = true → IsFloat (spell literal)
  spell_infinite : ∀ literal, isFinite literal = false →
    spell literal ∈ [codes "NaN", codes "Infinity", codes "-Infinity"]
  /-- `repr` escapes what cannot be printed, surrogates among it. -/
  scalar_repr : ∀ value text, repr value = some text → Scalar text
  scalar_fault : ∀ line, Scalar (fault line)
  scalar_attributeError : ∀ value, Scalar (traceback (.attributeError value))
  scalar_typeError : ∀ name, Scalar (traceback (.typeError name))
  scalar_recursionError : ∀ value, Scalar (traceback (.recursionError value))
  traceback_dumps : ∀ trace, traceback (.dumps trace) = trace

/-! ### Responses -/

def parseError : Int := -32700
def invalidRequest : Int := -32600
def methodNotFound : Int := -32601
def invalidParams : Int := -32602
def internalError : Int := -32603

/-- `PROTOCOL_VERSION`. -/
def protocolVersion : String := "2025-06-18"

/-- `SUPPORTED_PROTOCOL_VERSIONS`. -/
def supportedProtocolVersions : List String :=
  ["2024-11-05", "2025-03-26", "2025-06-18", "2025-11-25"]

/-- `__version__`. -/
def lnplVersion : String := "0.9.1.dev0"

/-- `_ok`. -/
def ok (mid result : Json) : Json := dict [("jsonrpc", str "2.0"), ("id", mid), ("result", result)]

/-- `_error`. -/
def error (mid : Json) (code : Int) (message : Text) : Json :=
  dict [("jsonrpc", str "2.0"), ("id", mid),
    ("error", dict [("code", .int code), ("message", .str message)])]

/-- The result of a call: its one text. -/
def content (text : Text) (isError : Bool) : Json :=
  dict [("content", .list [dict [("type", str "text"), ("text", .str text)]]),
    ("isError", .bool isError)]

/-! ### Requests -/

/-- What a call of a tool comes to. -/
inductive Outcome where
  | /-- An exception, as `"%s: %s" % (type(exc).__name__, exc)`. -/
    raised (report : Text)
  | text (payload : Text)
  | /-- `json.dumps(payload, indent=2)` of another payload, or the traceback of what it raises. -/
    document (dumped : Except Text Text)

/-- The compiler behind the server, in a world that it sees. -/
structure Compiler (World : Type) where
  /-- `_lnpl()` finds the package. -/
  imports : World → Bool
  run : World → Tool → Json → Outcome

variable {World : Type}

/-- `message.get("params") or {}`, when it is asked for an item. -/
def paramsOf (fields : Fields) : Except Failure Fields :=
  if (field fields "params").truthy then
    match field fields "params" with
    | .dict params => .ok params
    | value => .error (.attributeError value)
  else .ok []

/-- `HANDLERS.get(name)`. -/
def handlerOf : Json → Except Failure (Option Tool)
  | .str name => .ok (handlers.find? fun tool => codes tool.name = name)
  | .list items => .error (.typeError (.list items))
  | .dict fields => .error (.typeError (.dict fields))
  | _ => .ok none

/-- `params.get("arguments") or {}`. -/
def argumentsOf (params : Fields) : Json :=
  if (field params "arguments").truthy then field params "arguments" else .dict []

/-- `"… %r …" % value`. -/
def formatted (py : Python) (front : Text) (value : Json) (back : Text) : Except Failure Text :=
  match py.repr value with
  | none => .error (.recursionError value)
  | some text => .ok (front ++ text ++ back)

/-- The version that `initialize` answers with. -/
def versionFor (params : Fields) : Json :=
  if supportedProtocolVersions.any fun version =>
    (field params "protocolVersion").isText (codes version) then field params "protocolVersion"
  else str protocolVersion

/-- `initialize`. -/
def initialized (imports : Bool) (fields : Fields) : Except Failure Json :=
  (paramsOf fields).map fun params => ok (field fields "id") (dict [
    ("protocolVersion", versionFor params),
    ("capabilities", dict [("tools", dict [])]),
    ("serverInfo", dict [("name", str "lnpl"),
      ("version", str (if imports then lnplVersion else "unknown"))])])

/-- What a call of a tool is answered. -/
def answer (mid : Json) : Outcome → Except Failure Json
  | .raised report => .ok (ok mid (content report true))
  | .text payload => .ok (ok mid (content payload false))
  | .document (.ok dumped) => .ok (ok mid (content dumped false))
  | .document (.error trace) => .error (.dumps trace)

/-- `tools/call`. -/
def called (py : Python) (run : Tool → Json → Outcome) (fields : Fields) : Except Failure Json :=
  match paramsOf fields with
  | .error failure => .error failure
  | .ok params =>
    match handlerOf (field params "name") with
    | .error failure => .error failure
    | .ok none =>
      (formatted py (codes "unknown tool ") (field params "name")
        (codes (" (have: " ++ ", ".intercalate (handlers.map Tool.name) ++ ")"))).map
          (error (field fields "id") invalidParams)
    | .ok (some tool) => answer (field fields "id") (run tool (argumentsOf params))

/-- `handle` of a dict; a notification has no response. -/
def handle (py : Python) (compiler : Compiler World) (world : World) (fields : Fields) :
    Except Failure (Option Json) :=
  let method := field fields "method"
  let mid := field fields "id"
  if !(field fields "jsonrpc").isText (codes "2.0") then
    .ok (some (error mid invalidRequest (codes "jsonrpc must be \"2.0\"")))
  else if method.isText (codes "notifications/initialized") then .ok none
  else
    match mid with
    | .null => .ok none
    | _ =>
      if method.isText (codes "initialize") then
        (initialized (compiler.imports world) fields).map some
      else if method.isText (codes "tools/list") then
        .ok (some (ok mid (dict [("tools", .list tools)])))
      else if method.isText (codes "tools/call") then
        (called py (compiler.run world) fields).map some
      else
        ((formatted py (codes "unknown method ") method []).map (error mid methodNotFound)).map some

/-! ### The loop -/

/-- What leaves `serve`. -/
inductive Escape where
  | /-- Of `json.loads`, or of `json.dumps` of the response. -/
    recursionError
  | /-- `message.get` of what is no dict, by `handle` and again where its failure is caught. -/
    attributeError
  | /-- Of the stream. -/
    unicodeEncodeError
  deriving DecidableEq, Repr

/-- `stdout.write(json.dumps(response, ensure_ascii=False) + "\n")`: the line. -/
def write (py : Python) (response : Json) : Except Escape Text :=
  match dumpsRaw py.spell py.writeRoom response with
  | .error _ => .error .recursionError
  | .ok text => if Scalar text then .ok (text ++ [10]) else .error .unicodeEncodeError

/-- The response to what a line is read as. -/
def respond (py : Python) (compiler : Compiler World) (world : World) :
    Json → Except Escape (Option Json)
  | .dict fields =>
    match handle py compiler world fields with
    | .ok response => .ok response
    | .error failure =>
      .ok (some (error (field fields "id") internalError (py.traceback failure)))
  | _ => .error .attributeError

/-- A turn of the loop: the lines that it writes. -/
def serveLine (py : Python) (compiler : Compiler World) (world : World) (line : Text) :
    Except Escape (List Text) :=
  if strip line = [] then .ok []
  else
    match loadsText py.readRoom (strip line) with
    | .error .recursionError => .error .recursionError
    | .error .valueError =>
      (write py (error .null parseError (codes "invalid JSON: " ++ py.fault (strip line)))).map
        fun written => [written]
    | .ok message =>
      match respond py compiler world message with
      | .error escape => .error escape
      | .ok none => .ok []
      | .ok (some response) => (write py response).map fun written => [written]

/-- What `serve` has written for each line, and what has left the loop, if it is not at its end. -/
structure Served where
  written : List (List Text)
  raised : Option Escape

/-- `serve`, of the lines and the worlds in which they come. -/
def serve (py : Python) (compiler : Compiler World) : List (World × Text) → Served
  | [] => ⟨[], none⟩
  | line :: lines =>
    match serveLine py compiler line.1 line.2 with
    | .error escape => ⟨[], some escape⟩
    | .ok written => ⟨written :: (serve py compiler lines).written, (serve py compiler lines).raised⟩

/-! ### The contract -/

/-- A message that asks for no response: that the client is ready, or a request without an id. -/
def IsNotification (fields : Fields) : Prop :=
  (field fields "jsonrpc").isText (codes "2.0") = true ∧
    ((field fields "method").isText (codes "notifications/initialized") = true ∨
      field fields "id" = .null)

/-- The line is one line of JSON, and a reader finds in it a response with this id. -/
def IsResponse (mid : Json) (line : Text) : Prop :=
  ∃ text fields, line = text ++ [10] ∧ 10 ∉ text ∧
    loadsText text.length text = .ok (.dict fields) ∧ (Json.dict fields).Floats IsFloat ∧
    field fields "jsonrpc" = str "2.0" ∧ field fields "id" = mid ∧
    ((fields.lookup (codes "result")).isSome ↔ (fields.lookup (codes "error")).isNone)

/-- What is written for the line is what its client waits for. -/
def Answers (py : Python) (line : Text) (written : List Text) : Prop :=
  if strip line = [] then written = []
  else
    match loadsText py.readRoom (strip line) with
    | .ok (.dict fields) => (IsNotification fields ∧ written = []) ∨
      (¬IsNotification fields ∧
        ∃ response, written = [response] ∧
          IsResponse ((field fields "id").spelled py.spell) response)
    | _ => ∃ response, written = [response] ∧ IsResponse .null response

/-- **The contract of `serve`**: every line is answered, and no exception leaves the loop. -/
structure Serves (py : Python) (compiler : Compiler World) (lines : List (World × Text)) : Prop where
  answers : List.Forall₂ (fun line written => Answers py line.2 written) lines
    (serve py compiler lines).written
  returns : (serve py compiler lines).raised = none

/-- The id can be written: it is not nested too deep, has no lone surrogate, and no infinity. -/
def Echoable (py : Python) (mid : Json) : Prop :=
  mid.nesting < py.writeRoom ∧ mid.Strs Scalar ∧ mid.Floats (fun literal => isFinite literal = true)

/-- The text of a tool has no lone surrogate. -/
def Outcome.Encodable : Outcome → Prop
  | .raised report => Scalar report
  | .text payload => Scalar payload
  | .document (.ok dumped) => Scalar dumped
  | .document (.error trace) => Scalar trace

/-- The tool that a request calls, and its arguments. -/
def calls (fields : Fields) : Option (Tool × Json) :=
  if (field fields "jsonrpc").isText (codes "2.0") &&
    (field fields "method").isText (codes "tools/call") then
    match paramsOf fields with
    | .error _ => none
    | .ok params =>
      match handlerOf (field params "name") with
      | .ok (some tool) => some (tool, argumentsOf params)
      | _ => none
  else none

/-- The line is blank, or no JSON at all, or an object: a notification, or a message whose id can be
written, and so can what the tool answers that it calls. -/
def Survives (py : Python) (compiler : Compiler World) (world : World) (line : Text) : Prop :=
  strip line = [] ∨ loadsText py.readRoom (strip line) = .error .valueError ∨
    ∃ fields, loadsText py.readRoom (strip line) = .ok (.dict fields) ∧
      (IsNotification fields ∨ Echoable py (field fields "id") ∧
        ∀ call ∈ calls fields, (compiler.run world call.1 call.2).Encodable)

end Lnpl.Mcp
