import Lnpl.Lib.Assignments
import Lnpl.Serve.IfMatch
import Mathlib.Data.List.Sort

/-!
# The routes that are served, and the paths that are published

`build_routes`, `build_schedule_routes` and `build_event_consume_routes` of `wsgi.py` make the
routing table, `generate` of `openapi.py` the paths of the contract, and `_do_post` and `_do_get`
look requests up in the table.

Both tables are built by assignments to keys, so where two declarations come to one key the later
one stays.  A table is kept here as the list of the assignments that made it.
-/

namespace Lnpl.Serve.Routing

open Lnpl.Lib

/-- A path, or a part of one. -/
abbrev Text := List Char

/-! ### The document -/

inductive Kind where
  | entity
  | service
  | workflow
  | event
  | workflowStep
  | repositoryCall
  | eventEmit
  | expose
  | security
  /-- guards, blocks, and what the walk passes by -/
  | other
  deriving DecidableEq, Repr

/-- A node of the document; what it does not carry is `none`, or empty where the source reads it
with such a default. -/
structure Node where
  id : String
  kind : Kind
  name : Option String := none
  line : Option Int := none
  children : List String := []
  constraints : List String := []
  mechanisms : List String := []
  entity : Option String := none
  operation : Option String := none
  event : Option String := none
  field : Option String := none
  /-- `"every" in source` -/
  every : Bool := false
  subscribe : Bool := false
  consume : Option String := none
  deriving DecidableEq, Repr

abbrev Document := List Node

/-- What stops `make_wsgi_app`. -/
inductive Fault where
  /-- `KeyError` -/
  | key (name : String)
  /-- `RecursionError` -/
  | recursion
  /-- `OpenApiError` -/
  | openApi (text : String)
  /-- `ServeError` -/
  | serve (text : String)
  /-- `WsgiConfigError` -/
  | config (text : String)
  /-- what `generate` raises for the parts of the contract that are not its paths -/
  | other
  deriving DecidableEq, Repr

/-- `node[key]`. -/
def item {α : Type} (key : String) : Option α → Except Fault α
  | some value => .ok value
  | none => .error (.key key)

/-- `nodes.get(id)`: of several nodes with one id, the last. -/
def Document.node? (doc : Document) (id : String) : Option Node :=
  doc.reverse.find? fun node => node.id = id

/-- `nodes[id]`. -/
def Document.node (doc : Document) (id : String) : Except Fault Node := item id (doc.node? id)

/-- The nodes of a kind, in document order. -/
def Document.ofKind (doc : Document) (kind : Kind) : List Node :=
  doc.filter fun node => node.kind = kind

/-! ### The surroundings -/

/-- `isupper`, `islower` and `lower` of one character. -/
structure Letters where
  isUpper : Char → Bool
  isLower : Char → Bool
  lower : Char → Text

def Letters.ascii : Letters where
  isUpper ch := ch.isUpper
  isLower ch := ch.isLower
  lower ch := [ch.toLower]

/-- What the result depends on besides the document. -/
structure Setup where
  letters : Letters
  repr : String → String
  /-- the members of a set, in the order in which it gives them -/
  members : List String → List String
  mem_members : ∀ ids id, id ∈ members ids ↔ id ∈ ids
  /-- how many calls of `walk` may be open at once -/
  depth : Nat
  /-- the schemas and the bodies of the operations -/
  describe : Document → Except Fault Unit
  /-- `--metrics` -/
  metrics : Bool

def Setup.ascii : Setup where
  letters := .ascii
  repr text := "'" ++ text ++ "'"
  members ids := ids.eraseDups
  mem_members _ _ := List.mem_eraseDups
  depth := 900
  describe _ := .ok ()
  metrics := false

/-! ### Names and paths -/

/-- `_slug`, behind the character `prev`. -/
def slugFrom (letters : Letters) : Option Char → Text → Text
  | _, [] => []
  | prev, ch :: rest =>
    let boundary := prev.any fun before =>
      letters.isUpper ch && (!letters.isUpper before || rest.head?.any letters.isLower)
    (if boundary then ['-'] else []) ++ letters.lower ch ++ slugFrom letters (some ch) rest

/-- `_slug`. -/
def slug (letters : Letters) (name : String) : Text := slugFrom letters none name.toList

/-- `"/%s/%s"`. -/
def pairPath (first second : Text) : Text := '/' :: first ++ '/' :: second

/-- `"{id}"`. -/
def idHole : Text := ['\x7b', 'i', 'd', '\x7d']

/-- `"/%s/%s/{id}"`. -/
def singlePath (first second : Text) : Text := pairPath first second ++ '/' :: idHole

/-- `"/%s/events/%s"`. -/
def eventsPath (first second : Text) : Text :=
  pairPath first "events".toList ++ '/' :: second

/-- `_required_role`. -/
def requiredRole (mechanisms : List String) : Option String :=
  (mechanisms.find? fun mech => "role ".toList.isPrefixOf mech.toList).map fun mech =>
    String.ofList (mech.toList.drop 5)

/-! ### Routes -/

/-- What a route leads to. -/
inductive Target where
  | workflow (id : String)
  /-- `get-single` -/
  | single (entity : String)
  /-- `get-list` -/
  | list (entity field : String)
  /-- `sse-subscribe` -/
  | subscribe (event : String)
  /-- `event-consume` -/
  | consume (workflow event : String)
  | health
  | ready
  | metrics
  deriving DecidableEq, Repr

structure Route where
  target : Target
  auth : Bool
  role : Option String
  deriving DecidableEq, Repr

def Target.isSingle : Target → Bool
  | .single _ => true
  | _ => false

/-- The assignments to a table of routes. -/
abbrev Routes := List (Text × Route)

/-! ### What a workflow touches -/

/-- The walk of `repository_calls` and of `event_emissions`: what `pick` takes from the children of
the steps below `ids`. -/
def walk {α : Type} (doc : Document) (pick : Node → Except Fault (Option α)) :
    Nat → List String → Except Fault (List α)
  | 0, _ => .error .recursion
  | depth + 1, ids => do
    let found ← ids.mapM fun id =>
      match doc.node? id with
      | none => .ok []
      | some node =>
        if node.kind = .workflowStep then do
          let picked ← node.children.mapM fun childId =>
            match doc.node? childId with
            | none => .ok none
            | some child => pick child
          return picked.reduceOption
        else walk doc pick depth node.children
    return found.flatten

/-- What `pick` takes from the steps of a workflow; nothing if there is no such workflow. -/
def walkWorkflow {α : Type} (doc : Document) (pick : Node → Except Fault (Option α)) (depth : Nat)
    (workflowId : String) : Except Fault (List α) :=
  match doc.node? workflowId with
  | none => .ok []
  | some workflow =>
    if workflow.kind ≠ .workflow then .ok [] else walk doc pick depth workflow.children

/-- `repository_calls`. -/
def repositoryCalls (doc : Document) : Nat → String → Except Fault (List (String × String)) :=
  walkWorkflow doc fun child => do
    if child.kind ≠ .repositoryCall then return none
    return some (← item "entity" child.entity, ← item "operation" child.operation)

/-- `event_emissions`. -/
def eventEmissions (doc : Document) : Nat → String → Except Fault (List String) :=
  walkWorkflow doc fun child => do
    if child.kind ≠ .eventEmit then return none
    return some (← item "event" child.event)

/-! ### The paths of one service -/

/-- What one child of a service adds: its own path, and what the paths behind the loop are made
of. -/
structure Exposure where
  routes : Routes := []
  entities : List String := []
  events : List String := []

variable (S : Setup) (doc : Document)

/-- The loop over the children of a service; `secured` is its auth requirement and its role. -/
def exposureOf (svcSlug : Text) (secured : Bool × Option String) (childId : String) :
    Except Fault Exposure := do
  let child ← doc.node childId
  match child.kind with
  | .workflow =>
    let path := pairPath svcSlug (slug S.letters (← item "name" child.name))
    let calls ← repositoryCalls doc S.depth childId
    let events ← eventEmissions doc S.depth childId
    return ⟨[(path, ⟨.workflow childId, secured.1, secured.2⟩)], calls.map Prod.fst, events⟩
  | .expose =>
    let entityId ← item "entity" child.entity
    let entity ← doc.node entityId
    let path := pairPath svcSlug (slug S.letters (← item "name" entity.name))
    let field ← item "field" child.field
    return ⟨[(path, ⟨.list entityId field, secured.1, secured.2⟩)], [], []⟩
  | _ => return {}

/-- The path of one row of an entity. -/
def singleRoute (svcSlug : Text) (secured : Bool × Option String) (entityId : String) :
    Except Fault (Text × Route) := do
  let entity ← doc.node entityId
  let path := singlePath svcSlug (slug S.letters (← item "name" entity.name))
  return (path, ⟨.single entityId, secured.1, secured.2⟩)

/-- The path of an event stream, if the event is open to subscribers. -/
def streamRoutes (svcSlug : Text) (secured : Bool × Option String) (eventId : String) :
    Except Fault Routes := do
  let event ← doc.node eventId
  if !event.subscribe then return []
  let path := eventsPath svcSlug (slug S.letters (← item "name" event.name))
  return [(path, ⟨.subscribe eventId, secured.1, secured.2⟩)]

/-- The body that the service loops of `build_routes` and of `generate` share; `enumerate` is the
order in which they go through a set. -/
def serviceRoutes (enumerate : List String → List String) (service : Node)
    (secured : Bool × Option String) : Except Fault Routes := do
  let svcSlug := slug S.letters (← item "name" service.name)
  let exposures ← service.children.mapM (exposureOf S doc svcSlug secured)
  let singles ← (enumerate (exposures.flatMap Exposure.entities)).mapM
    (singleRoute S doc svcSlug secured)
  let streams ← (enumerate (exposures.flatMap Exposure.events)).mapM
    (streamRoutes S doc svcSlug secured)
  return exposures.flatMap Exposure.routes ++ singles ++ streams.flatten

/-! ### `generate` -/

/-- `_constraints`, of which the paths depend on the mechanisms. -/
def mechanismsOf (service : Node) : Except Fault (List String) :=
  service.constraints.foldlM (fun found id =>
    match doc.node? id with
    | none => .error (.openApi ("dangling constraint reference " ++ S.repr id))
    | some node => .ok (if node.kind = .security then node.mechanisms else found)) []

/-- `sorted` of a set of ids. -/
def sortedIds (ids : List String) : List String := ids.eraseDups.insertionSort (· ≤ ·)

/-- `generate(document)["paths"]`, as the assignments that make it. -/
def generate : Except Fault Routes := do
  let routes ← (doc.ofKind .service).mapM fun service => do
    let mechanisms ← mechanismsOf S doc service
    serviceRoutes S doc sortedIds service (decide ("jwt" ∈ mechanisms), requiredRole mechanisms)
  S.describe doc
  return routes.flatten

/-- What the contract holds under a path. -/
structure PathItem where
  post : Option Route := none
  get : Option Route := none
  deriving DecidableEq, Repr

/-- The operation of a workflow replaces the whole item, any other one only its `get`. -/
def PathItem.write (operations : PathItem) (operation : Route) : PathItem :=
  match operation.target with
  | .workflow _ => { post := some operation }
  | _ => { operations with get := some operation }

/-- `paths[path]`. -/
def pathItem (contract : Routes) (path : Text) : PathItem :=
  ((contract.filter fun entry => entry.1 = path).map Prod.snd).foldl PathItem.write {}

/-! ### `build_routes` -/

/-- The auth requirement and the role of a service: those of its last `Security`. -/
def securityOf (service : Node) : Bool × Option String :=
  service.constraints.foldl (fun found id =>
    match doc.node? id with
    | none => found
    | some node =>
      if node.kind = .security then
        (decide ("jwt" ∈ node.mechanisms), requiredRole node.mechanisms)
      else found) (false, none)

/-- `%r` of a sorted list of paths. -/
def reprPaths (routes : Routes) : String :=
  "[" ++ ", ".intercalate ((sortedIds (routes.map fun entry => String.ofList entry.1)).map S.repr)
    ++ "]"

/-- The loop of `build_routes`: the routes of each service. -/
def serviceTables : Except Fault (List Routes) :=
  (doc.ofKind .service).mapM fun service =>
    serviceRoutes S doc S.members service (securityOf doc service)

/-- `build_routes`. -/
def buildRoutes : Except Fault Routes := do
  let tables ← serviceTables S doc
  let routes := tables.flatten
  let contract ← generate S doc
  if ¬ (∀ path, path ∈ routes.map Prod.fst → path ∈ contract.map Prod.fst) ∨
      ¬ (∀ path, path ∈ contract.map Prod.fst → path ∈ routes.map Prod.fst) then
    .error (.serve ("served paths " ++ reprPaths S routes ++ " do not match the OpenAPI contract "
      ++ reprPaths S contract))
  else return routes

/-! ### Schedules and consumed events -/

/-- `_schedule_events`. -/
def scheduleEvents : List Node := (doc.ofKind .event).filter Node.every

/-- The workflows among the children of a service. -/
def workflowsOf (service : Node) : Except Fault (List String) := do
  let children ← service.children.mapM fun id => return (id, ← doc.node id)
  return (children.filter fun child => child.2.kind = .workflow).map Prod.fst

/-- One round of `resolve_schedule_triggers`: the workflow of the nearest service before the
event. -/
def triggerOf (services : List (Int × Node)) (event : Node) :
    Except Fault (String × String × Node) := do
  let line ← item "line" event.line
  match (services.takeWhile fun service => service.1 ≤ line).getLast? with
  | none =>
    let name ← item "name" event.name
    .error (.serve ("schedule event " ++ S.repr name ++ " (line " ++ toString line ++ ") precedes "
      ++ "every `service` declaration in this module — no service owns it, so no workflow can be "
      ++ "chosen without guessing (issue #81, D1)"))
  | some (_, owner) =>
    let candidates ← workflowsOf doc owner
    match candidates with
    | [workflowId] => return (event.id, workflowId, owner)
    | _ =>
      let name ← item "name" event.name
      let ownerName ← item "name" owner.name
      .error (.serve ("schedule event " ++ S.repr name ++ " (line " ++ toString line ++ ") is owned "
        ++ "by service " ++ S.repr ownerName ++ ", which declares " ++ toString candidates.length
        ++ " workflow(s) — exactly one is required to pick a trigger target without guessing "
        ++ "(issue #81, D1)"))

/-- `resolve_schedule_triggers`, as the assignments to `triggers`. -/
def resolveScheduleTriggers : Except Fault (List (String × String × Node)) := do
  let services ← (doc.ofKind .service).mapM fun service =>
    return (← item "line" service.line, service)
  (scheduleEvents doc).mapM
    (triggerOf S doc (services.insertionSort fun a b => a.1 ≤ b.1))

/-- `build_schedule_routes`: the route of one trigger. -/
def scheduleRoute (trigger : String × String × Node) : Except Fault (Text × Route) := do
  let event ← doc.node trigger.1
  let (auth, role) := securityOf doc trigger.2.2
  let path := "/-/schedules/".toList ++ slug S.letters (← item "name" event.name)
  return (path, ⟨.workflow trigger.2.1, auth, role⟩)

/-- `_workflow_owner_service`. -/
def workflowOwnerService : Except Fault (List (String × Node)) := do
  let owners ← (doc.ofKind .service).mapM fun service =>
    return (← workflowsOf doc service).map fun id => (id, service)
  return owners.flatten

/-- `build_event_consume_routes`. -/
def buildEventConsumeRoutes : Except Fault Routes := do
  let owners ← workflowOwnerService doc
  let routes ← (doc.ofKind .event).mapM fun node =>
    match node.consume.filter (· ≠ "") with
    | none => return []
    | some workflowId => do
      let (auth, role) := ((assigned owners workflowId).map (securityOf doc)).getD (false, none)
      let path := "/-/events/".toList ++ slug S.letters (← item "name" node.name)
      return [(path, ⟨.consume workflowId node.id, auth, role⟩)]
  return routes.flatten

/-- `build_ops_routes`, and `build_metrics_route` if it is called. -/
def opsRoutes : Routes :=
  [("/-/healthz".toList, ⟨.health, false, none⟩), ("/-/readyz".toList, ⟨.ready, false, none⟩)] ++
    if S.metrics then [("/-/metrics".toList, ⟨.metrics, false, none⟩)] else []

/-! ### The application -/

/-- A token provider: `verify` of a token and an audience, and the role that `caller_view` finds in
the claims. -/
structure Provider where
  verify : Text → Text → Option (Option String)

/-- A served application. -/
structure App where
  letters : Letters
  routes : Routes
  provider : Option Provider

/-- The routing table of `make_wsgi_app`. -/
def appRoutes : Except Fault Routes := do
  let routes ← buildRoutes S doc
  let triggers ← resolveScheduleTriggers S doc
  let schedules ← (dictItems triggers).mapM (scheduleRoute S doc)
  let consumed ← buildEventConsumeRoutes S doc
  return routes ++ schedules ++ consumed ++ opsRoutes S

/-- The paths whose route requires a role. -/
def gatedPaths (routes : Routes) : List String :=
  sortedIds (((dictItems routes).filter fun entry => entry.2.role.any (· ≠ "")).map fun entry =>
    String.ofList entry.1)

/-- `make_wsgi_app`. -/
def makeWsgiApp (provider : Option Provider) : Except Fault App := do
  let routes ← appRoutes S doc
  if provider.isNone ∧ gatedPaths routes ≠ [] then
    .error (.config (toString (gatedPaths routes).length ++ " route(s) declare `security role` but "
      ++ "no token_provider is configured — a role can never be read off a token that is never "
      ++ "verified: " ++ (gatedPaths routes).headD "" ++ ". Configure `--jwt-secret-env` (or pass "
      ++ "token_provider=... directly)"))
  else return ⟨S.letters, routes, provider⟩

/-! ### Dispatch -/

inductive Method where
  | post
  | get
  deriving DecidableEq, Repr

structure Request where
  method : Method
  path : Text
  query : Text
  /-- the `Authorization` header -/
  authorization : Option Text

/-- What a table makes of a request. -/
inductive Resolution where
  | notFound
  | notAllowed
  | found (route : Route) (id : Option Text)
  deriving DecidableEq, Repr

/-- `_do_post`, up to `_check_auth`. -/
def resolvePost (routes : Routes) (rawPath : Text) : Resolution :=
  match assigned routes rawPath with
  | none => .notFound
  | some route =>
    match route.target with
    | .workflow _ | .consume _ _ => .found route none
    | _ => .notAllowed

/-- The template `/<svc>/<entity>/{id}` that a path of four segments is tried as, and the id. -/
def itemOf (path : Text) : Option (Text × Text) :=
  match path.splitOn '/' with
  | [_, first, second, last] => if last = [] then none else some (singlePath first second, last)
  | _ => none

/-- `_do_get`, up to `_check_auth`. -/
def resolveGet (routes : Routes) (path : Text) : Resolution :=
  match itemOf path with
  | some (template, id) =>
    match (assigned routes template).filter fun route => route.target.isSingle with
    | some route => .found route (some id)
    | none =>
      match assigned routes path with
      | some ⟨.subscribe event, auth, role⟩ => .found ⟨.subscribe event, auth, role⟩ none
      | _ => .notFound
  | none =>
    match assigned routes path with
    | none => .notFound
    | some route =>
      match route.target with
      | .list _ _ | .health | .ready | .metrics => .found route none
      | _ => .notAllowed

/-- The route that a request is dispatched to. -/
def resolve (routes : Routes) (request : Request) : Resolution :=
  match request.method with
  | .post =>
    resolvePost routes (request.path ++ if request.query = [] then [] else '?' :: request.query)
  | .get => resolveGet routes request.path

/-- `audience_for_path`. -/
def audienceForPath (path : Text) : Option Text :=
  match path.splitOn '/' with
  | [] :: audience :: _ => if audience = [] then none else some audience
  | _ => none

/-- `_token_accepted`: the role that a verified caller has. -/
def tokenAccepted (letters : Letters) (provider : Provider) (header path : Text) :
    Option (Option String) :=
  let scheme := header.takeWhile (· ≠ ' ')
  let token := IfMatch.strip (header.drop (scheme.length + 1))
  if scheme.flatMap letters.lower ≠ "bearer".toList ∨ token = [] then none
  else (audienceForPath path).bind (provider.verify token)

/-- `_check_auth`: the status it answers with, unless the request may pass. -/
def checkAuth (app : App) (route : Route) (request : Request) : Option Nat :=
  if !route.auth then none
  else
    match request.authorization with
    | none => some 401
    | some header =>
      match app.provider with
      | none => none
      | some provider =>
        match tokenAccepted app.letters provider header request.path with
        | none => some 401
        | some role => if route.role.any (fun required => required ≠ "" ∧ role ≠ some required)
          then some 403 else none

/-- A request is refused, or handed to what a route leads to. -/
inductive Outcome where
  | refused (status : Nat)
  | handled (target : Target) (id : Option Text)
  deriving DecidableEq, Repr

/-- `_do_post` and `_do_get`. -/
def dispatch (app : App) (request : Request) : Outcome :=
  match resolve app.routes request with
  | .notFound => .refused 404
  | .notAllowed => .refused 405
  | .found route id =>
    match checkAuth app route request with
    | some status => .refused status
    | none => .handled route.target id

/-! ### The law -/

/-- The request is one for the path of an operation or a declaration; `id` is what it puts in the
place of `{id}`. -/
def Addresses (path : Text) (target : Target) (request : Request) (id : Option Text) : Prop :=
  match target with
  | .single _ => ∃ stem value, path = stem ++ idHole ∧ value ≠ [] ∧ '/' ∉ value ∧
      request.path = stem ++ value ∧ id = some value
  | .workflow _ | .consume _ _ => request.path = path ∧ request.query = [] ∧ id = none
  | _ => request.path = path ∧ id = none

/-- The caller meets the requirements of a route: a bearer token that the provider accepts where
one is required (any header at all if there is no provider), and a role where one is named. -/
def Met (app : App) (route : Route) (request : Request) : Prop :=
  (route.auth = true → ∃ header, request.authorization = some header ∧
    ∀ provider, app.provider = some provider →
      (tokenAccepted app.letters provider header request.path).isSome) ∧
  ∀ role, route.role = some role → role ≠ "" → ∃ provider header, app.provider = some provider ∧
    request.authorization = some header ∧
    tokenAccepted app.letters provider header request.path = some (some role)

/-- Every request for the path is dispatched to the route, and handed to what it leads to exactly
for the callers that meet its requirements. -/
def Serves (app : App) (method : Method) (path : Text) (route : Route) : Prop :=
  ∀ request id, request.method = method → Addresses path route.target request id →
    resolve app.routes request = .found route id ∧
      (dispatch app request = .handled route.target id ↔ Met app route request)

def Target.method : Target → Method
  | .workflow _ | .consume _ _ => .post
  | _ => .get

/-- The routes of all declarations. -/
def declarations : Except Fault Routes := do
  let tables ← serviceTables S doc
  let triggers ← resolveScheduleTriggers S doc
  let schedules ← triggers.mapM (scheduleRoute S doc)
  let consumed ← buildEventConsumeRoutes S doc
  return tables.flatten ++ schedules ++ consumed

/-- **The law of the routing table**: it serves every operation of the contract, and the route of
every declaration. -/
def RoutingLaw (app : App) : Prop :=
  (∀ contract, generate S doc = .ok contract → ∀ path route,
    ((pathItem contract path).post = some route → Serves app .post path route) ∧
    ((pathItem contract path).get = some route → Serves app .get path route)) ∧
  ∀ declared, declarations S doc = .ok declared → ∀ path route, (path, route) ∈ declared →
    Serves app route.target.method path route

/-- The dispatcher comes to a path as what it leads to, where `rows` are the templates that lead to
the rows of an entity. -/
def Reachable (rows : Text → Prop) (path : Text) : Target → Prop
  | .workflow _ | .consume _ _ => True
  | .single _ => path.count '/' = 3
  | .subscribe _ => ∃ template id, itemOf path = some (template, id) ∧ ¬ rows template
  | _ => itemOf path = none

/-- The templates of the entities whose rows are declared. -/
def RowsOf (declared : Routes) (template : Text) : Prop :=
  ∃ route, (template, route) ∈ declared ∧ route.target.isSingle = true

/-- The paths of the declarations keep apart. -/
structure Separate (ops declared : Routes) : Prop where
  /-- no two declarations come to one path, unless they declare the same, and none to one of the
  reserved ones -/
  distinct : ∀ path route route', (path, route) ∈ declared → (path, route') ∈ declared ++ ops →
    route' = route
  /-- `security role` stands with `security jwt` -/
  secured : ∀ path route role, (path, route) ∈ declared → route.role = some role → role ≠ "" →
    route.auth = true
  /-- no name brings a `/` into a path that the dispatcher splits, and no entity of a service with
  event streams has the path `events` -/
  reachable : ∀ path route, (path, route) ∈ declared →
    Reachable (RowsOf declared) path route.target

end Lnpl.Serve.Routing
