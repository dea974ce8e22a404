import Lnpl.Interp.RepoPolicy

/-!
# Effects

What one effect of a step does (`_run_effect`).  Every effect is one action under the lock of a
parallel block, except a NetworkCall: it releases the lock around its outbound call, so it is three
actions with a pause on either side of the call.

`set` writes into the bound row object; here the binding is replaced by the updated row, which is
the same thing for rows that are detached from the store.
-/

namespace Lnpl.Interp

open Lnpl.Lib

variable {ρ χ ν : Type} (rt : Runtime ρ χ ν) (call : Call)

/-! ### Masking -/

namespace Document

/-- `_resolve_entity_for_binding`. -/
def resolveEntityForBinding (doc : Document) (binding : String) (bindings : Bindings) :
    Option Entity :=
  let id := (bindings[binding]?.bind Row.entityId).orElse fun _ => doc.entityIdForBinding binding
  id.bind doc.entity?

/-- `mask_payload({field: raw}, entity)[field]`. -/
def maskField (doc : Document) (field : String) (raw : Json) (e : Option Entity) : Json :=
  match e with
  | none => raw
  | some e => if field ∈ doc.maskedFieldNames e then mask else raw

end Document

/-- `ref.partition(".")`, without its separator. -/
def Ref.parts : Ref → String × String
  | .bare name => (name, "")
  | .qualified binding field => (binding, field)

/-- One entry of `_assemble_mapped_payload`; nothing for an entry that is left out. -/
def mappedValue (s : Scope) (entry : MapEntry) : Option Json :=
  let raw := resolveReference entry.ref s
  let (binding, refField) := entry.ref.parts
  if binding = payloadNamespace then
    if raw.isNull && rt.doc.inputOptional refField then none
    else some (rt.doc.maskField entry.field raw rt.doc.entityNode)
  else
    let entity := rt.doc.resolveEntityForBinding binding s.bindings
    if raw.isNull && entity.any (fun e => Document.isOptional e refField) then none
    else some (rt.doc.maskField entry.field raw entity)

/-- `_assemble_mapped_payload`. -/
def assembleMappedPayload (s : Scope) (map : List MapEntry) : Dict :=
  map.foldl (fun built entry =>
    match mappedValue rt s entry with
    | none => built
    | some value => built.insert entry.field value) ∅

/-! ### Rows -/

/-- `strip_schema_gen`. -/
def Stored.strip (row : Stored) : Stored := { row with data := row.data.erase schemaGenKey }

/-- `row[field] = value`. -/
def Stored.set (row : Stored) (field : String) (value : Json) : Stored :=
  { row with data := row.data.insert field value }

/-- `strip_schema_gen` of what `execute` answered. -/
def Found.strip : Found → Found
  | .dict row => .dict row.strip
  | found => found

/-- `row is None`. -/
def Found.isNone : Found → Bool
  | .none => true
  | _ => false

/-- The stamp a real driver's rows are persisted with, and that is taken off again. -/
def stamped (entity : Option Entity) (row : Stored) : Stored :=
  match entity with
  | some e => if rt.repo.isFake then row else row.set schemaGenKey (rt.lang.schemaGeneration e)
  | none => row

/-- The row once its stamp is taken off. -/
def unstamped (entity : Option Entity) (row : Stored) : Stored :=
  if entity.isSome && !rt.repo.isFake then row.strip else row

/-- `repo_ops.append(..)` and `self.repo.persist(..)` with its stamp; the row object as it is left
by a call that returns. -/
def persist (entity key : String) (row : Stored) : M ρ χ ν Stored := do
  modify (Exec.noteOp ⟨entity, "persist", some key, none⟩)
  let row ← translated (onRepo (rt.repo.persist entity key (stamped rt (rt.doc.entity? entity) row)))
  return unstamped rt (rt.doc.entity? entity) row

/-- `self._read_through_invalidations.append(key)` if some `cached` read targets the entity. -/
def invalidateAfterCommit (entity key : String) (s : Exec ρ χ ν) : Exec ρ χ ν :=
  if entity ∈ rt.doc.readThroughEntities then
    { s with readThroughInvalidations := s.readThroughInvalidations ++ [key] }
  else s

/-! ### Assignment -/

def assignment (binding field expression : String) (aggFieldType : Option String) :
    M ρ χ ν Unit := do
  let s ← get
  match s.bindings[binding]? with
  | none => fail ("assignment target " ++ rt.lang.repr (binding ++ "." ++ field) ++
      " names no bound row — " ++ binding ++ " was never read")
  | some row =>
    let value ← EStateM.ofExcept
      (rt.lang.assignmentValue expression aggFieldType (s.scope rt call) s.rowsets)
    if value.isNull then
      fail ("assignment " ++ rt.lang.repr (binding ++ "." ++ field) ++
        " cannot be evaluated: a reference in " ++ rt.lang.repr expression ++
        " resolves to nothing")
    modify (Exec.bind binding { row with toStored := row.toStored.set field value })
    match (rt.doc.entityIdForBinding binding).orElse fun _ => row.entityId with
    | none => fail ("assignment target " ++ rt.lang.repr (binding ++ "." ++ field) ++
        " names no declared entity, so the write has no row to address")
    | some entity =>
      let key := s.bindingKeys[binding]?.getD (rowKey rt.lang entity call.payload)
      let written := row.toStored.set field value
      -- what the `finally` leaves of the row object, whether `persist` returns or raises
      modify (Exec.bind binding { row with toStored := unstamped rt (rt.doc.entity? entity) written })
      modify (Exec.beginPersist ⟨binding, entity, key, row.origin, row.entityId.isSome,
        s.sharesOrigin binding row⟩)
      let written ← persist rt entity key written
      modify (Exec.endPersist binding)
      modify (Exec.bind binding { row with toStored := written })
      modify (invalidateAfterCommit rt entity key)
      modify (Exec.log "INFO" "assignment applied"
        [("target", .str (binding ++ "." ++ field)), ("value", value)])

/-! ### RepositoryCall -/

/-- The resolved right sides of a `list where`, in order. -/
def predicateValues (s : Scope) : List PredicateTerm → Except Exc (List (String × String × Json))
  | [] => .ok []
  | term :: terms => do
    let value ← rt.lang.predicateValue term.value s
    return (term.field, term.op, value) :: (← predicateValues s terms)

/-- The call of `query`, pushed down or applied here. -/
def queryRows (entity : String) (predicate : Option (List (String × String × Json)))
    (order : Option Order) (limit : Option Nat) : M ρ χ ν (List Dict) :=
  if predicate.isNone && order.isNone && limit.isNone then onRepo (rt.repo.query entity)
  else
    match rt.repo.queryPredicate with
    | some query => onRepo (query entity predicate order limit)
    | none => do
      let rows ← onRepo (rt.repo.query entity)
      let rows ← EStateM.ofExcept (applyPredicate rt.lang rows predicate order limit)
      modify (Exec.log "INFO" "predicate-not-pushed-down" [("entity", .str entity)])
      return rows

def query (entity : String) (predicate : List PredicateTerm) (order : Option Order)
    (limit : Option Nat) : M ρ χ ν Unit := do
  let s ← get
  let values ← EStateM.ofExcept (predicateValues rt (s.scope rt call) predicate)
  modify (Exec.noteOp ⟨entity, "query", none, none⟩)
  let rows ← translated
    (queryRows rt entity (if predicate.isEmpty then none else some values) order limit)
  match rt.doc.entity? entity with
  | none => pure ()
  | some e => modify (Exec.bindRows (Document.bindingName e.name)
      (rows.map fun row => row.erase schemaGenKey))

/-- `_fill_values`. -/
def fillValues (e : Option Entity) : Dict :=
  match e with
  | none => ∅
  | some e => e.fields.foldl (fun fills f =>
      match f.fillSource with
      | none => fills
      | some source => fills.insert f.name (.str (call.fill source))) ∅

/-- The row under the key, through the cache for a `cached` read. -/
def fetch (entity : String) (op : Operation) (key : String) (cached : Bool) :
    M ρ χ ν Found := do
  let now := (← get).now
  let hit ← if cached then orOutage (onCache (rt.cache.get now key)) (pure none) else pure none
  match hit with
  | some row =>
    modify (Exec.noteCached entity key row.data true)
    return .dict row
  | none =>
    let found := (← translated (onRepo (rt.repo.execute entity op key))).strip
    match found with
    | .dict row =>
      if cached then
        orOutage (do
          onCache (rt.cache.set now key row call.con.cacheTtlMs)
          modify fun s => { s with readThroughWrites := s.readThroughWrites ++ [key] }) (pure ())
        modify (Exec.noteCached entity key row.data false)
    | _ => pure ()
    return found

/-- One declared field of a row that `create` seeds. -/
def seedField (fills : Dict) (seeded : Dict) (f : Field) : Dict :=
  if f.fillSource.isSome then seeded.insert f.name (Dict.get fills f.name)
  else if f.derived then seeded
  else
    match call.payload[f.name]? with
    | none => seeded
    | some value => if f.optional && value.isNull then seeded else seeded.insert f.name value

/-- The entity declares a field `id`. -/
def declaresId (e : Option Entity) : Bool := e.any fun e => e.fields.any fun f => f.name = "id"

/-- The row that `create` persists over the driver's skeleton. -/
def seededRow (e : Option Entity) (fills : Dict) (key : String) : Dict :=
  let id := if declaresId e then fills["id"]?.getD (Dict.get call.payload "id") else .str key
  ((e.map Entity.fields).getD []).foldl (seedField call fills) ((∅ : Dict).insert "id" id)

/-- What follows a `create` that the driver has carried out. -/
def createRow (entity key : String) (fills : Dict) (result : Option String) : M ρ χ ν Unit := do
  let e := rt.doc.entity? entity
  let seeded := seededRow call e fills key
  if declaresId e || seeded.size > 1 then
    let _ ← persist rt entity key { data := seeded }
  match result with
  | none => pure ()
  | some name =>
    modify (Exec.bind name { data := seeded, entityId := some entity, origin := some (entity, key) })

/-- `binding_name` of the entity is bound to the row, and to its key. -/
def bindRead (entity key : String) (row : Stored) (s : Exec ρ χ ν) : Exec ρ χ ν :=
  match rt.doc.entity? entity with
  | none => s
  | some e =>
    (s.bind (Document.bindingName e.name) { row with origin := some (entity, key) }).bindKey
      (Document.bindingName e.name) key

/-- `update` or `delete`. -/
def Operation.modifies : Operation → Bool
  | .update | .delete => true
  | _ => false

/-- A write that touched no row. -/
def Found.wroteNothing (lang : Lang) (op : Operation) : Found → Bool
  | .dict row => op.modifies && lang.eq (Dict.get row.data "affected") (.int 0)
  | _ => false

/-- The key that the call addresses: the generated id, the payload's, or what the lookup names. -/
def addressedKey (entity : String) (lookup : Option Ref) (fills : Dict) (s : Scope) :
    Except Exc String :=
  match fills["id"]? with
  | some id => .ok (rowKeyOf rt.lang entity id)
  | none => resolveLookupKey rt.lang entity lookup s

/-- The failure of a read that found no row, or of a write that touched none. -/
def notFound {α : Type} (entity : String) (op : Operation) : M ρ χ ν α := do
  modify (Exec.advance 1)
  fail ("repository " ++ op.text ++ " found no row for " ++ entity) (some "not-found")

def repositoryCall (entity : String) (op : Operation) (lookup : Option Ref) (cached : Bool)
    (result : Option String) : M ρ χ ν Unit := do
  let fills := if op = .create then fillValues call (rt.doc.entity? entity) else ∅
  if op = .create && fills["id"]?.isNone && (Dict.get call.payload "id").isNull then
    fail ("repository create of " ++ entity ++ " needs an id: the payload has no `id` and " ++
      "the entity's id is not `derived generated` (RFC-0055)") (some "id-required")
  let s ← get
  let key ← EStateM.ofExcept (addressedKey rt entity lookup fills (s.scope rt call))
  modify (Exec.noteOp ⟨entity, op.text, some key, lookup⟩)
  let found ← fetch rt call entity op key cached
  if op.modifies then modify (invalidateAfterCommit rt entity key)
  match op, found with
  | .read, .dict row => modify (bindRead rt entity key row)
  | .read, .none => notFound entity op
  | .create, _ => createRow rt call entity key fills result
  | _, _ => if found.wroteNothing rt.lang op then notFound entity op

/-! ### The other effects -/

def cacheAccess (op : CacheOperation) (key : List String) : M ρ χ ν Unit := do
  -- the pieces of the key's text between its `id` placeholders
  let key := String.intercalate (idText rt.lang call.payload) key
  let now := (← get).now
  translated <|
    match op with
    | .set => onCache (rt.cache.set now key { data := call.payload } call.con.cacheTtlMs)
    | .get => do
      let _ ← onCache (rt.cache.get now key)
    | .invalidate => onCache (rt.cache.invalidate key)

/-- `DEFAULT_NETWORK_TIMEOUT_MS`. -/
def defaultNetworkTimeoutMs : Int := 30000

/-- The resolved path arguments, in order. -/
def pathArgValues (id : String) (s : Scope) : List Ref → Except Exc (List Json)
  | [] => .ok []
  | ref :: refs => do
    let value := resolveReference ref s
    if value.isNull then
      throw (.run { message := "NetworkCall " ++ rt.lang.repr id ++ ": `with` reference " ++
        rt.lang.repr ref.text ++ " resolved to nothing" })
    return value :: (← pathArgValues id s refs)

/-- A NetworkCall up to the point where it releases the lock: the request and the time left. -/
def prepareCall (id target : String) (pathArgs : List Ref) (bodyMap : List MapEntry) :
    M ρ χ ν (Outbound × Int) := do
  let s ← get
  let remaining : Int :=
    match call.deadline with
    | none => defaultNetworkTimeoutMs
    | some deadline => (deadline : Int) - s.now
  let args ← EStateM.ofExcept (pathArgValues rt id (s.scope rt call) pathArgs)
  let body := if bodyMap.isEmpty then rt.doc.omitMaskedFields call.payload
    else assembleMappedPayload rt (s.scope rt call) bodyMap
  return (⟨target, body, if pathArgs.isEmpty then none else some args⟩, remaining)

/-- The outbound call itself.  A transport failure is status 0 for a call whose result is bound,
and a failure of the step for one whose result is not. -/
def sendCall (request : Outbound) (remaining : Int) (bound : Bool) : M ρ χ ν (Int × Json) := do
  modify fun s => { s with sent := s.sent ++ [request] }
  if bound then orOutage (onNetwork (rt.network.call request remaining)) (pure (0, .obj []))
  else translated (onNetwork (rt.network.call request remaining))

/-- The bound result: the body's top-level keys, and `status`, which wins. -/
def resultRow (status : Int) (body : Json) : Row :=
  let fields : Dict :=
    match body with
    | .obj fields => Std.ExtTreeMap.ofList fields compare
    | _ => ∅
  { data := fields.insert "status" (.int status) }

def networkCall (id target : String) (pathArgs : List Ref) (bodyMap : List MapEntry)
    (result : Option String) : Coro (Exec ρ χ ν) Exc Unit := do
  let (request, remaining) ← Coro.lift (prepareCall rt call id target pathArgs bodyMap)
  Coro.pause (pure ())
  let (status, body) ← Coro.lift (sendCall rt request remaining result.isSome)
  Coro.pause (pure ())
  match result with
  | none => pure ()
  | some name => Coro.lift (modify (Exec.bind name (resultRow status body)))

def eventEmit (id : String) (event : Option String) (payloadMap : List MapEntry) :
    M ρ χ ν Unit := do
  match event with
  | none => fail "EventEmit has no event reference"
  | some event =>
    if event ∉ rt.doc.events then
      fail ("EventEmit references undeclared event " ++ rt.lang.repr event)
    let s ← get
    let built := if payloadMap.isEmpty then rt.doc.maskPayload call.payload rt.doc.entityNode
      else assembleMappedPayload rt (s.scope rt call) payloadMap
    let emission : Emission := ⟨id ++ "#" ++ toString (s.outbox.length + 1), event, built⟩
    -- persisted first, so that no emission is counted that the store does not have
    translated (onRepo (rt.repo.recordEmission emission))
    modify fun s => { s with outbox := s.outbox ++ [emission] }
    modify (Exec.log "INFO" "event publish registered"
      [("event", .str event), ("emission_id", .str emission.emissionId)])

/-- An effect that holds the lock throughout, up to the closing `clock.advance(1)`. -/
def atomicEffect : Effect → M ρ χ ν Unit
  | .assignment _ binding field expression aggFieldType =>
    assignment rt call binding field expression aggFieldType
  | .validation _ rule target => EStateM.ofExcept (rt.lang.validate rule target call.payload)
  | .query _ entity predicate order limit => query rt call entity predicate order limit
  | .repositoryCall _ entity op lookup cached result =>
    repositoryCall rt call entity op lookup cached result
  | .cacheAccess _ op key => cacheAccess rt call op key
  | .eventEmit id event payloadMap => eventEmit rt call id event payloadMap
  | .rejection _ code => fail code (some "rejected")
  -- the requirement is recorded and not checked; a response and a note are read off the step
  -- once it is over
  | .authorization .. | .response .. | .annotated .. | .networkCall .. => pure ()

/-- `_run_effect`. -/
def runEffect (e : Effect) : Coro (Exec ρ χ ν) Exc Unit := do
  match e with
  | .networkCall id target pathArgs bodyMap result =>
    networkCall rt call id target pathArgs bodyMap result
  | e => Coro.lift (atomicEffect rt call e)
  Coro.lift (modify (Exec.advance 1))

end Lnpl.Interp
