import Mathlib.Algebra.Order.Ring.Unbundled.Rat
import Lnpl.Front.Lexer
import Lnpl.Lib.Base64
import Lnpl.Lib.PyJson
import Lnpl.Lib.StableSort

/-!
# `GET` of an exposed list

`query_sorted` of the two stores, `encode_cursor`, `decode_cursor`, `paginate` and `_get_list` of
`wsgi.py`, and a client that follows `next`.

The store orders rows by the field and then by the key a row is stored under.  `paginate` orders
them by the field and then by `row_key`, which it computes from the row's own `id`.
-/

namespace Lnpl.Serve.Pagination

open Lnpl.Lib
open Lnpl.Lib.Py

/-- A row of the entity's table: the key it is stored under, and its payload. -/
structure Row where
  key : String
  payload : Fields

/-- What `json_extract` gives. -/
inductive SqlValue where
  | null
  | number (value : Rat)
  | text (s : String)
  deriving DecidableEq, Repr

/-- What sqlite makes of the values that are neither NULL, a 64-bit integer, a float nor a text. -/
structure Sqlite where
  /-- the float that an integer literal beyond 64 bits is read as -/
  real : Int → Rat
  /-- the JSON text of a list or an object -/
  json : Value → String

/-- The store of the rows. -/
inductive Store where
  /-- `FakeRepository` -/
  | fake
  /-- `SqliteRepositoryDriver` -/
  | sqlite (db : Sqlite)

/-- What leaves the request: a problem document, or an exception that nothing catches. -/
inductive Failure where
  | problem (status : Nat) (code detail : String)
  | raised (error : Py.Error)
  deriving DecidableEq, Repr

/-- The repository of a request. -/
inductive Backend where
  /-- no `repository_factory` -/
  | absent
  /-- `query_sorted` raises a `DriverError` -/
  | failing
  /-- the rows of the entity, each under a key of its own -/
  | table (rows : List Row)

/-- A declared field: its name, and its type. -/
structure FieldDecl where
  name : String
  type : String

/-- What a request to the list of an entity reads of the application. -/
structure Server where
  py : Front.Python
  reader : Reader
  store : Store
  /-- `route["entity"]` -/
  entity : String
  /-- `route["field"]` -/
  field : String
  /-- the fields of the entity node -/
  fields : List FieldDecl
  /-- the base of each refinement of the document -/
  refinements : List (String × String)

def defaultLimit : Nat := 50

def maxLimit : Nat := 200

/-! ### `query_sorted` -/

/-- `a < b` of the tuples `(value, key)`. -/
def tupleLt (field : String) (a b : Row) : Except Py.Error Bool :=
  gtItems [Py.field b.payload field, .str b.key] [Py.field a.payload field, .str a.key]

/-- The field is absent, or `None`. -/
def isMissing (field : String) (row : Row) : Bool :=
  match Py.field row.payload field with
  | .none => true
  | _ => false

/-- `FakeRepository.query_sorted`. -/
def fakeSorted (field : String) (table : List Row) : Except Py.Error (List Row) := do
  let items := table.mergeSort fun a b => a.key ≤ b.key
  let present := items.filter fun row => !isMissing field row
  let missing := items.filter fun row => isMissing field row
  return (← sortBy (tupleLt field) present) ++ missing

/-- `json_extract(payload, '$.field')` by the value of the field. -/
def Sqlite.value (sqlite : Sqlite) : Value → SqlValue
  | .none => .null
  | .bool b => .number (if b then 1 else 0)
  | .int n => .number (if -2 ^ 63 ≤ n ∧ n < 2 ^ 63 then n else sqlite.real n)
  | .float value _ => .number value
  | .str s => .text s
  | value => .text (sqlite.json value)

namespace SqlValue

/-- sqlite orders NULL before numbers before texts. -/
def storageClass : SqlValue → Nat
  | null => 0
  | number _ => 1
  | text _ => 2

def toNumber : SqlValue → Rat
  | number value => value
  | _ => 0

def toText : SqlValue → String
  | text s => s
  | _ => ""

end SqlValue

/-- `ORDER BY (json_extract(payload, ?) IS NULL), json_extract(payload, ?), row_key`. -/
def Sqlite.cmp (sqlite : Sqlite) (field : String) : Row → Row → Ordering :=
  let value := fun row : Row => sqlite.value (Py.field row.payload field)
  compareLex (compareOn fun row => (decide (value row = .null)).toNat)
    (compareLex (compareOn fun row => (value row).storageClass)
      (compareLex (compareOn fun row => (value row).toNumber)
        (compareLex (compareOn fun row => (value row).toText) (compareOn Row.key))))

/-- `query_sorted`. -/
def Store.querySorted (field : String) (table : List Row) : Store → Except Py.Error (List Row)
  | .fake => fakeSorted field table
  | .sqlite db => .ok (table.mergeSort fun a b => (db.cmp field a b).isLE)

/-! ### Cursors -/

/-- `encode_cursor`. -/
def encodeCursor (value key : Value) : List Char :=
  Base64.strip (Base64.encode (utf8 (Value.dict [("v", value), ("k", key)]).write))

/-- `decode_cursor`, with the text of its `CursorError`. -/
def decodeCursor (reader : Reader) (token : List Char) : Except String (Value × Value) :=
  let undecodable := "cursor is not valid base64/JSON"
  if token.any fun ch => 128 ≤ ch.toNat then .error undecodable
  else
    match Base64.decode (Base64.pad token) with
    | .error _ => .error undecodable
    | .ok raw =>
      match loads reader raw with
      | none => .error undecodable
      | some (.dict data) =>
        match field? data "v", field? data "k" with
        | some value, some key => .ok (value, key)
        | _, _ => .error "cursor is missing the expected v/k shape"
      | some _ => .error "cursor is missing the expected v/k shape"

/-! ### `paginate` -/

/-- `_sort_key`, a tuple. -/
def sortKey (value key : Value) : List Value :=
  match value with
  | .none => [.int 1, key]
  | value => [.int 0, value, key]

/-- `row_key`. -/
def rowKey (quote : String → String) (entity : String) (payload : Fields) : String :=
  entity ++ "#" ++ ((field? payload "id").getD (.str "-")).text quote

/-- The rows whose sort key is greater than `after`. -/
def rowsAfter (quote : String → String) (entity field : String) (after : List Value) :
    List Row → Except Py.Error (List Row)
  | [] => .ok []
  | row :: rows => do
    let greater ← gtItems
      (sortKey (Py.field row.payload field) (.str (rowKey quote entity row.payload))) after
    let rest ← rowsAfter quote entity field after rows
    return if greater then row :: rest else rest

/-- The rows behind the cursor, if there is one, with the text of the `CursorError`. -/
def resume (quote : String → String) (rows : List Row) (field entity : String) :
    Option (Value × Value) → Except String (List Row)
  | none => .ok rows
  | some (value, key) =>
    match rowsAfter quote entity field (sortKey value key) rows with
    | .error _ => .error "cursor does not match this field's type"
    | .ok rows => .ok rows

/-- The page of rows and the cursor to the next one. -/
def paginate (quote : String → String) (rows : List Row) (field entity : String)
    (after : Option (Value × Value)) (limit : Nat) :
    Except String (List Row × Option (List Char)) := do
  let rows ← resume quote rows field entity after
  let page := rows.take limit
  return (page,
    if limit < rows.length then
      page.getLast?.map fun last =>
        encodeCursor (Py.field last.payload field) (.str (rowKey quote entity last.payload))
    else none)

/-! ### The request -/

/-- The text of a `ValueError` that `int` raises. -/
def faultText : Front.Fault → String
  | .condition message => message
  | .value message => message
  | .overflow message => message

/-- `_parse_limit`, with the text of its `ValueError`. -/
def parseLimit (py : Front.Python) : Option String → Except String Nat
  | none => .ok defaultLimit
  | some raw =>
    let outside := "limit must be an integer between 1 and 200"
    if !py.isdigit raw then .error outside
    else
      match py.int raw.toList with
      | .error fault => .error (faultText fault)
      | .ok n => if 1 ≤ n ∧ n ≤ maxLimit then .ok n else .error outside

/-- `masked_field_names(_entity_view(document, entity_node))`. -/
def Server.maskedFieldNames (S : Server) : List String :=
  (S.fields.filter fun decl => (S.refinements.lookup decl.type).getD decl.type == "Password").map
    FieldDecl.name

/-- `mask_payload`. -/
def Server.maskPayload (S : Server) (payload : Fields) : Fields :=
  payload.map fun item => if item.1 ∈ S.maskedFieldNames then (item.1, .str "***") else item

/-- `strip_schema_gen`. -/
def stripSchemaGen (row : Row) : Row :=
  { row with payload := row.payload.filter fun item => item.1 ≠ "_schema_gen" }

/-- The response: the rows on the page, the items that are sent for them, and `next`. -/
structure Page where
  rows : List Row
  items : List Fields
  next : Option (List Char)

/-- The rows `_get_list` reads. -/
def Server.readRows (S : Server) : Backend → Except Failure (List Row)
  | .absent => .ok []
  | .failing => .error (.problem 500 "read-failed" "internal server error")
  | .table rows =>
    match S.store.querySorted S.field rows with
    | .error error => .error (.raised error)
    | .ok rows => .ok rows

/-- The page size that the parameters ask for. -/
def Server.readLimit (S : Server) (params : List (String × String)) : Except Failure Nat :=
  match parseLimit S.py (params.lookup "limit") with
  | .error detail => .error (.problem 400 "limit-invalid" detail)
  | .ok limit => .ok limit

/-- The cursor that the parameters name. -/
def Server.readAfter (S : Server) (params : List (String × String)) :
    Except Failure (Option (Value × Value)) :=
  match params.lookup "after" with
  | none => .ok none
  | some token =>
    match decodeCursor S.reader token.toList with
    | .error detail => .error (.problem 400 "cursor-invalid" detail)
    | .ok after => .ok (some after)

/-- The response to what `paginate` gives. -/
def Server.respond (S : Server) :
    Except String (List Row × Option (List Char)) → Except Failure Page
  | .error detail => .error (.problem 400 "cursor-invalid" detail)
  | .ok (page, next) =>
    .ok { rows := page, items := page.map fun row => S.maskPayload row.payload, next := next }

/-- `_get_list`; `params` are the parameters of the query string, the first of each name. -/
def Server.getList (S : Server) (backend : Backend) (params : List (String × String)) :
    Except Failure Page := do
  let limit ← S.readLimit params
  let after ← S.readAfter params
  let rows ← S.readRows backend
  S.respond (paginate S.py.repr (rows.map stripSchemaGen) S.field S.entity after limit)

/-- The parameters a client sends: its limit, and the `next` of the page before. -/
def query (limit : Nat) (after : Option (List Char)) : List (String × String) :=
  ("limit", toString limit) :: (after.map fun token => ("after", String.ofList token)).toList

/-- A client that follows `next` until it is `null`, one table after another; `none` if a request
fails or the tables run out before. -/
def Server.follow (S : Server) (limit : Nat) :
    Option (List Char) → List (List Row) → Option (List Page)
  | _, [] => none
  | after, table :: tables =>
    match S.getList (.table table) (query limit after) with
    | .error _ => none
    | .ok page =>
      match page.next with
      | none => some [page]
      | some token => (S.follow limit (some token) tables).map (page :: ·)

end Lnpl.Serve.Pagination
