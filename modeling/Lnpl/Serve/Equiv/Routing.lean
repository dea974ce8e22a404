import Lnpl.Lib.Results
import Lnpl.Serve.Routing
import Mathlib.Data.List.Induction

/-!
# Which routing tables serve what they publish

The routing table and the contract go through the same declarations (`mem_of_operation`), so they
have the same keys; what the table holds under a key is the route of the last declaration that came
to it.  The application serves the contract and every declaration exactly when the paths of the
declarations keep apart (`routingLaw_iff_separate`).
-/

namespace Lnpl.Serve.Routing

open Lnpl.Lib

variable {S : Setup} {doc : Document}

/-! ### The security of a service -/

/-- `build_routes` and `generate` read the same requirements off a service. -/
theorem securityOf_of_mechanismsOf {service : Node} {mechanisms : List String}
    (h : mechanismsOf S doc service = .ok mechanisms) :
    securityOf doc service = (decide ("jwt" ∈ mechanisms), requiredRole mechanisms) := by
  unfold mechanismsOf at h
  unfold securityOf
  have hstart : ((false, none) : Bool × Option String) =
      (decide ("jwt" ∈ ([] : List String)), requiredRole []) := rfl
  rw [hstart]
  generalize ([] : List String) = found at h ⊢
  generalize service.constraints = ids at h ⊢
  induction ids generalizing found with
  | nil =>
    rw [List.foldlM_nil, pure_eq_ok] at h
    rw [h, List.foldl_nil]
  | cons id ids ih =>
    rw [List.foldlM_cons] at h
    obtain ⟨found', hstep, h⟩ := bind_eq_ok.mp h
    rw [List.foldl_cons, ← ih _ h]
    cases hnode : doc.node? id with
    | none => simp [hnode] at hstep
    | some node =>
      simp only [hnode, Except.ok.injEq] at hstep
      rw [← hstep]
      by_cases hkind : node.kind = .security <;> simp [hkind]

/-! ### The paths of a service -/

variable {enumerate enumerate' : List String → List String} {service : Node}
  {secured : Bool × Option String} {routes routes' contract declared : Routes} {path : Text}
  {route : Route} {app : App} {provider : Option Provider}

variable {entry : Text × Route} {svcSlug first second : Text} {request : Request}

/-- However the sets are gone through, the same routes come out. -/
theorem mem_serviceRoutes_congr (henum : ∀ ids id, id ∈ enumerate ids ↔ id ∈ enumerate' ids)
    (h : serviceRoutes S doc enumerate service secured = .ok routes)
    (h' : serviceRoutes S doc enumerate' service secured = .ok routes') :
    entry ∈ routes ↔ entry ∈ routes' := by
  obtain ⟨name, hname, h⟩ := bind_eq_ok.mp h
  obtain ⟨exposures, hexposures, h⟩ := bind_eq_ok.mp h
  obtain ⟨singles, hsingles, h⟩ := bind_eq_ok.mp h
  obtain ⟨streams, hstreams, h⟩ := bind_eq_ok.mp h
  obtain rfl := pure_eq_ok.mp h
  obtain ⟨name', hname', h'⟩ := bind_eq_ok.mp h'
  obtain rfl : name = name' := Except.ok.inj (hname.symm.trans hname')
  obtain ⟨exposures', hexposures', h'⟩ := bind_eq_ok.mp h'
  obtain rfl : exposures = exposures' := Except.ok.inj (hexposures.symm.trans hexposures')
  obtain ⟨singles', hsingles', h'⟩ := bind_eq_ok.mp h'
  obtain ⟨streams', hstreams', h'⟩ := bind_eq_ok.mp h'
  obtain rfl := pure_eq_ok.mp h'
  have hsame : entry ∈ singles ↔ entry ∈ singles' := by
    rw [mem_mapM hsingles, mem_mapM hsingles']
    simp only [henum]
  have hstream : entry ∈ streams.flatten ↔ entry ∈ streams'.flatten := by
    simp only [List.mem_flatten, mem_mapM hstreams, mem_mapM hstreams', henum]
  rw [List.mem_append, List.mem_append, List.mem_append, List.mem_append, hsame, hstream]

/-- The kinds of routes that a service has, and the path of one row. -/
def OfService (entry : Text × Route) : Prop :=
  match entry.2.target with
  | .workflow _ | .list _ _ | .subscribe _ => True
  | .single _ => ∃ first second, entry.1 = singlePath first second
  | _ => False

theorem ofService_of_mem_exposureOf {childId : String} {exposure : Exposure}
    (h : exposureOf S doc svcSlug secured childId = .ok exposure) :
    ∀ entry ∈ exposure.routes, OfService entry := by
  obtain ⟨child, _, h⟩ := bind_eq_ok.mp h
  split at h
  · obtain ⟨name, _, h⟩ := bind_eq_ok.mp h
    obtain ⟨calls, _, h⟩ := bind_eq_ok.mp h
    obtain ⟨events, _, h⟩ := bind_eq_ok.mp h
    rw [← pure_eq_ok.mp h]
    simp [OfService]
  · obtain ⟨entityId, _, h⟩ := bind_eq_ok.mp h
    obtain ⟨entity, _, h⟩ := bind_eq_ok.mp h
    obtain ⟨name, _, h⟩ := bind_eq_ok.mp h
    obtain ⟨field, _, h⟩ := bind_eq_ok.mp h
    rw [← pure_eq_ok.mp h]
    simp [OfService]
  · rw [← pure_eq_ok.mp h]
    simp

theorem ofService_singleRoute {entityId : String}
    (h : singleRoute S doc svcSlug secured entityId = .ok entry) : OfService entry := by
  obtain ⟨entity, _, h⟩ := bind_eq_ok.mp h
  obtain ⟨name, _, h⟩ := bind_eq_ok.mp h
  rw [← pure_eq_ok.mp h]
  exact ⟨svcSlug, slug S.letters name, rfl⟩

variable {eventId : String} {value : Text} {id : Option Text}

theorem ofService_of_mem_streamRoutes
    (h : streamRoutes S doc svcSlug secured eventId = .ok routes) :
    ∀ entry ∈ routes, OfService entry := by
  obtain ⟨event, _, h⟩ := bind_eq_ok.mp h
  split at h
  · rw [← pure_eq_ok.mp h]
    simp
  · obtain ⟨name, _, h⟩ := bind_eq_ok.mp h
    rw [← pure_eq_ok.mp h]
    simp [OfService]

theorem ofService_of_mem_serviceRoutes
    (h : serviceRoutes S doc enumerate service secured = .ok routes) :
    ∀ entry ∈ routes, OfService entry := by
  obtain ⟨name, _, h⟩ := bind_eq_ok.mp h
  obtain ⟨exposures, hexposures, h⟩ := bind_eq_ok.mp h
  obtain ⟨singles, hsingles, h⟩ := bind_eq_ok.mp h
  obtain ⟨streams, hstreams, h⟩ := bind_eq_ok.mp h
  rw [← pure_eq_ok.mp h]
  intro entry hentry
  rcases List.mem_append.mp hentry with hentry | hentry
  · rcases List.mem_append.mp hentry with hentry | hentry
    · obtain ⟨exposure, hexposure, hentry⟩ := List.mem_flatMap.mp hentry
      obtain ⟨childId, _, hchild⟩ := (mem_mapM hexposures).mp hexposure
      exact ofService_of_mem_exposureOf hchild entry hentry
    · obtain ⟨entityId, _, hsingle⟩ := (mem_mapM hsingles).mp hentry
      exact ofService_singleRoute hsingle
  · obtain ⟨stream, hstream, hentry⟩ := List.mem_flatten.mp hentry
    obtain ⟨eventId, _, heventId⟩ := (mem_mapM hstreams).mp hstream
    exact ofService_of_mem_streamRoutes heventId entry hentry

theorem ofService_of_mem_generate (h : generate S doc = .ok contract) :
    ∀ entry ∈ contract, OfService entry := by
  obtain ⟨found, hfound, h⟩ := bind_eq_ok.mp h
  obtain ⟨_, _, h⟩ := bind_eq_ok.mp h
  rw [← pure_eq_ok.mp h]
  intro entry hentry
  obtain ⟨routes, hroutes, hentry⟩ := List.mem_flatten.mp hentry
  obtain ⟨service, _, hservice⟩ := (mem_mapM hfound).mp hroutes
  obtain ⟨mechanisms, _, hservice⟩ := bind_eq_ok.mp hservice
  exact ofService_of_mem_serviceRoutes hservice entry hentry

/-! ### Operations and declarations -/

/-- What is written last under a method, was written to the path. -/
theorem mem_of_pathItem : ((pathItem contract path).post = some route →
      (path, route) ∈ contract ∧ ∃ id, route.target = .workflow id) ∧
    ((pathItem contract path).get = some route →
      (path, route) ∈ contract ∧ ∀ id, route.target ≠ .workflow id) := by
  unfold pathItem
  have hmem : ∀ operation ∈ (contract.filter fun entry => entry.1 = path).map Prod.snd,
      (path, operation) ∈ contract := by
    intro operation hoperation
    obtain ⟨entry, hentry, rfl⟩ := List.mem_map.mp hoperation
    obtain ⟨hentry, hpath⟩ := List.mem_filter.mp hentry
    rwa [← of_decide_eq_true hpath]
  generalize (contract.filter fun entry => entry.1 = path).map Prod.snd = operations at hmem ⊢
  -- the last operation decides what is written, or leaves what the earlier ones wrote
  induction operations using List.reverseRecOn with
  | nil => simp
  | append_singleton operations operation ih =>
    have hlast := hmem operation (by simp)
    have ih := ih fun operation' h => hmem operation' (List.mem_append_left _ h)
    rw [List.foldl_append, List.foldl_cons, List.foldl_nil, PathItem.write]
    split
    · rename_i id htarget
      constructor
      · intro h
        rw [← Option.some.inj h]
        exact ⟨hlast, id, htarget⟩
      · intro h
        cases h
    · rename_i htarget
      constructor
      · exact ih.1
      · intro h
        rw [← Option.some.inj h]
        exact ⟨hlast, htarget⟩

theorem mem_sortedIds (ids : List String) (id : String) : id ∈ sortedIds ids ↔ id ∈ ids := by
  rw [sortedIds, List.mem_insertionSort, List.mem_eraseDups]

/-- **The contract and the routing table are made of the same routes.** -/
theorem mem_generate_iff {tables : List Routes} (htables : serviceTables S doc = .ok tables)
    (h : generate S doc = .ok contract) :
    entry ∈ contract ↔ entry ∈ tables.flatten := by
  obtain ⟨found, hfound, h⟩ := bind_eq_ok.mp h
  obtain ⟨_, _, h⟩ := bind_eq_ok.mp h
  rw [← pure_eq_ok.mp h]
  have henum : ∀ ids id, id ∈ sortedIds ids ↔ id ∈ S.members ids := fun ids id => by
    rw [mem_sortedIds, S.mem_members]
  rw [List.mem_flatten, List.mem_flatten]
  constructor
  · rintro ⟨routes, hroutes, hentry⟩
    obtain ⟨service, hservice, hrun⟩ := (mem_mapM hfound).mp hroutes
    obtain ⟨mechanisms, hmechanisms, hrun⟩ := bind_eq_ok.mp hrun
    obtain ⟨table, htable, hrun'⟩ := exists_of_mapM htables hservice
    rw [securityOf_of_mechanismsOf hmechanisms] at hrun'
    exact ⟨table, htable, (mem_serviceRoutes_congr henum hrun hrun').mp hentry⟩
  · rintro ⟨table, htable, hentry⟩
    obtain ⟨service, hservice, hrun'⟩ := (mem_mapM htables).mp htable
    obtain ⟨routes, hroutes, hrun⟩ := exists_of_mapM hfound hservice
    obtain ⟨mechanisms, hmechanisms, hrun⟩ := bind_eq_ok.mp hrun
    rw [securityOf_of_mechanismsOf hmechanisms] at hrun'
    exact ⟨routes, hroutes, (mem_serviceRoutes_congr henum hrun hrun').mpr hentry⟩

/-- **The comparison with the contract never refuses a table**: the keys are the same, whatever
became of the routes that shared one. -/
theorem buildRoutes_eq_ok_iff : buildRoutes S doc = .ok routes ↔
    ∃ tables contract, serviceTables S doc = .ok tables ∧ generate S doc = .ok contract ∧
      tables.flatten = routes := by
  unfold buildRoutes
  simp only [bind_eq_ok]
  constructor
  · rintro ⟨tables, htables, contract, hcontract, h⟩
    split at h
    · cases h
    · exact ⟨tables, contract, htables, hcontract, pure_eq_ok.mp h⟩
  · rintro ⟨tables, contract, htables, hcontract, rfl⟩
    refine ⟨tables, htables, contract, hcontract, ?_⟩
    have hkeys : ∀ path, path ∈ tables.flatten.map Prod.fst ↔ path ∈ contract.map Prod.fst := by
      intro path
      simp only [List.mem_map, mem_generate_iff htables hcontract]
    rw [if_neg]
    · rfl
    · rintro (hmissing | hextra)
      · exact hmissing fun path hpath => (hkeys path).mp hpath
      · exact hextra fun path hpath => (hkeys path).mpr hpath

/-! ### The table of an application -/

/-- A table holds the routes of the declarations and the reserved ones; it has every path of a
declaration, and keeps what is reserved. -/
structure TableOf (ops declared routes : Routes) : Prop where
  mem : ∀ entry ∈ routes, entry ∈ declared ++ ops
  exists_mem : ∀ path route, (path, route) ∈ declared → ∃ route', (path, route') ∈ routes
  assigned_ops : ∀ path route, (path, route) ∈ ops → assigned routes path = some route

theorem nodup_opsRoutes (S : Setup) : ((opsRoutes S).map Prod.fst).Nodup := by
  unfold opsRoutes
  cases S.metrics <;> decide

/-- `scheduleRoute` fails or succeeds by the event alone. -/
theorem exists_scheduleRoute {trigger trigger' : String × Node}
    (h : scheduleRoute S doc (eventId, trigger) = .ok entry) :
    ∃ entry', scheduleRoute S doc (eventId, trigger') = .ok entry' ∧ entry'.1 = entry.1 := by
  obtain ⟨event, hevent, h⟩ := bind_eq_ok.mp h
  obtain ⟨name, hname, h⟩ := bind_eq_ok.mp h
  refine ⟨_, bind_eq_ok.mpr ⟨event, hevent, bind_eq_ok.mpr ⟨name, hname, rfl⟩⟩, ?_⟩
  rw [← pure_eq_ok.mp h]

theorem exists_declarations (h : appRoutes S doc = .ok routes) :
    ∃ declared, declarations S doc = .ok declared ∧ TableOf (opsRoutes S) declared routes := by
  obtain ⟨built, hbuilt, h⟩ := bind_eq_ok.mp h
  obtain ⟨triggers, htriggers, h⟩ := bind_eq_ok.mp h
  obtain ⟨schedules, hschedules, h⟩ := bind_eq_ok.mp h
  obtain ⟨consumed, hconsumed, h⟩ := bind_eq_ok.mp h
  obtain ⟨tables, contract, htables, _, hbuilt⟩ := buildRoutes_eq_ok_iff.mp hbuilt
  -- a trigger that another one of the same event replaces has a route as well
  obtain ⟨all, hall⟩ : ∃ all, triggers.mapM (scheduleRoute S doc) = .ok all := by
    apply exists_mapM
    intro trigger htrigger
    obtain ⟨trigger', htrigger'⟩ := exists_mem_dictItems htrigger
    obtain ⟨entry, _, hentry⟩ := exists_of_mapM hschedules htrigger'
    obtain ⟨entry', hentry', _⟩ := exists_scheduleRoute hentry
    exact ⟨entry', hentry'⟩
  refine ⟨tables.flatten ++ all ++ consumed, bind_eq_ok.mpr ⟨tables, htables, bind_eq_ok.mpr
    ⟨triggers, htriggers, bind_eq_ok.mpr ⟨all, hall, bind_eq_ok.mpr ⟨consumed, hconsumed, rfl⟩⟩⟩⟩,
    ?_⟩
  rw [← pure_eq_ok.mp h, ← hbuilt]
  constructor
  · intro entry hentry
    simp only [List.mem_append] at hentry ⊢
    rcases hentry with ((hentry | hentry) | hentry) | hentry
    · exact .inl (.inl (.inl hentry))
    · obtain ⟨trigger, htrigger, hrun⟩ := (mem_mapM hschedules).mp hentry
      have hmem := mem_of_mem_dictItems htrigger
      exact .inl (.inl (.inr ((mem_mapM hall).mpr ⟨trigger, hmem, hrun⟩)))
    · exact .inl (.inr hentry)
    · exact .inr hentry
  · intro path route hentry
    simp only [List.mem_append] at hentry ⊢
    rcases hentry with (hentry | hentry) | hentry
    · exact ⟨route, .inl (.inl (.inl hentry))⟩
    · obtain ⟨trigger, htrigger, hrun⟩ := (mem_mapM hall).mp hentry
      obtain ⟨trigger', htrigger'⟩ := exists_mem_dictItems htrigger
      obtain ⟨⟨path', route'⟩, hentry', hpath⟩ := exists_scheduleRoute hrun
      obtain rfl : path' = path := hpath
      have hmem := (mem_mapM hschedules).mpr ⟨(trigger.1, trigger'), htrigger', hentry'⟩
      exact ⟨route', .inl (.inl (.inr hmem))⟩
    · exact ⟨route, .inl (.inr hentry)⟩
  · intro path route hentry
    rw [assigned_append, assigned_of_nodup (nodup_opsRoutes S) hentry]
    rfl

/-! ### Segments -/

theorem splitOn_slash_cons (text : Text) : ('/' :: text).splitOn '/' = [] :: text.splitOn '/' := by
  rw [← List.nil_append ('/' :: text), List.splitOn_append_cons_self, List.splitOn_nil]
  rfl

theorem splitOn_append_slash {segment : Text} (h : '/' ∉ segment) (text : Text) :
    (segment ++ '/' :: text).splitOn '/' = segment :: text.splitOn '/' := by
  rw [List.splitOn_append_cons_self, List.splitOn_eq_singleton h]
  rfl

theorem length_splitOn_slash (text : Text) : (text.splitOn '/').length = text.count '/' + 1 := by
  induction text with
  | nil => rfl
  | cons ch text ih =>
    rw [List.splitOn_cons_eq_if_modifyHead, List.count_cons]
    split
    · rw [List.length_cons, ih]
    · rw [List.length_modifyHead, ih]

/-- A path below two segments is tried as a row of the pair. -/
theorem itemOf_item (hfirst : '/' ∉ first) (hsecond : '/' ∉ second) (hvalue : '/' ∉ value)
    (hne : value ≠ []) :
    itemOf (pairPath first second ++ '/' :: value) = some (singlePath first second, value) := by
  have hsplit : (pairPath first second ++ '/' :: value).splitOn '/' = [[], first, second, value] := by
    rw [pairPath, List.cons_append, List.cons_append, splitOn_slash_cons, List.append_assoc,
      List.cons_append, splitOn_append_slash hfirst, splitOn_append_slash hsecond,
      List.splitOn_eq_singleton hvalue]
  unfold itemOf
  rw [hsplit]
  exact if_neg hne

/-- A path that is tried as a row has three slashes. -/
theorem count_of_itemOf {path template id : Text} (h : itemOf path = some (template, id)) :
    path.count '/' = 3 := by
  unfold itemOf at h
  split at h
  · rename_i hsplit
    have hlength := length_splitOn_slash path
    rw [hsplit] at hlength
    simpa using hlength.symm
  · cases h

theorem count_item (first second value : Text) :
    (pairPath first second ++ '/' :: value).count '/' =
      first.count '/' + second.count '/' + value.count '/' + 3 := by
  rw [pairPath, List.count_append, List.cons_append, List.count_cons_self, List.count_append,
    List.count_cons_self, List.count_cons_self]
  omega

theorem count_idHole : idHole.count '/' = 0 := by decide

/-! ### What the dispatcher finds -/

theorem resolvePost_found_iff (hmethod : route.target.method = .post) :
    resolvePost routes path = .found route none ↔ assigned routes path = some route := by
  unfold resolvePost
  cases assigned routes path with
  | none => simp
  | some found =>
    dsimp only
    split
    · simp
    · simp
    · rename_i hworkflow hconsume
      simp only [reduceCtorEq, Option.some.injEq, false_iff]
      rintro rfl
      cases htarget : found.target <;> simp_all [Target.method]

/-- The targets that are looked up under their own path, where it is not tried as a row. -/
def Target.isDirect : Target → Bool
  | .list _ _ | .health | .ready | .metrics => true
  | _ => false

theorem resolveGet_direct_iff (hdirect : route.target.isDirect = true) :
    resolveGet routes path = .found route none ↔
      assigned routes path = some route ∧ itemOf path = none := by
  unfold resolveGet
  cases itemOf path with
  | some tried =>
    simp only [reduceCtorEq, and_false, iff_false]
    intro h
    split at h
    · cases h
    · split at h
      · obtain ⟨rfl, _⟩ := Resolution.found.inj h
        cases hdirect
      · cases h
  | none =>
    cases assigned routes path with
    | none => simp
    | some found =>
      dsimp only
      split
      all_goals try simp
      rintro rfl
      cases htarget : found.target <;> simp_all [Target.isDirect]

/-- The templates that a table leads to the rows of an entity by. -/
def RowsIn (routes : Routes) (template : Text) : Prop :=
  ∃ route, assigned routes template = some route ∧ route.target.isSingle = true

theorem resolveGet_stream_iff {event : String} {auth : Bool} {role : Option String} :
    resolveGet routes path = .found ⟨.subscribe event, auth, role⟩ none ↔
      assigned routes path = some ⟨.subscribe event, auth, role⟩ ∧
      ∃ template id, itemOf path = some (template, id) ∧ ¬ RowsIn routes template := by
  unfold resolveGet
  cases hitem : itemOf path with
  | none =>
    simp only [reduceCtorEq, false_and, exists_false, and_false, iff_false]
    intro h
    split at h
    · cases h
    · split at h
      all_goals cases h
      all_goals simp_all
  | some tried =>
    obtain ⟨template, id⟩ := tried
    dsimp only
    split
    · rename_i found hfound
      obtain ⟨hfound, hsingle⟩ := Option.filter_eq_some_iff.mp hfound
      simp only [Resolution.found.injEq, reduceCtorEq, and_false, false_iff, not_and]
      rintro _ ⟨template', id', heq, hno⟩
      obtain ⟨rfl, rfl⟩ := Prod.mk.inj (Option.some.inj heq)
      exact hno ⟨found, hfound, hsingle⟩
    · rename_i hnone
      have hno : ¬ RowsIn routes template := by
        rintro ⟨route, hroute, hsingle⟩
        rw [Option.filter_eq_some_iff.mpr ⟨hroute, hsingle⟩] at hnone
        cases hnone
      constructor
      · intro h
        split at h
        · rename_i hassigned
          obtain ⟨h, _⟩ := Resolution.found.inj h
          rw [hassigned, h]
          exact ⟨rfl, template, id, rfl, hno⟩
        · cases h
      · rintro ⟨hassigned, _⟩
        rw [hassigned]

theorem resolveGet_item_iff {id : Text} :
    resolveGet routes path = .found route (some id) ↔
      ∃ template, itemOf path = some (template, id) ∧ assigned routes template = some route ∧
        route.target.isSingle = true := by
  unfold resolveGet
  cases hitem : itemOf path with
  | none =>
    simp only [reduceCtorEq, false_and, exists_false, iff_false]
    intro h
    split at h
    · cases h
    · split at h <;> cases h
  | some tried =>
    obtain ⟨template, id'⟩ := tried
    dsimp only
    constructor
    · intro h
      split at h
      · rename_i found hfound
        obtain ⟨rfl, hid⟩ := Resolution.found.inj h
        obtain rfl := Option.some.inj hid
        obtain ⟨hassigned, hsingle⟩ := Option.filter_eq_some_iff.mp hfound
        exact ⟨template, rfl, hassigned, hsingle⟩
      · split at h <;> cases h
    · rintro ⟨template', heq, hassigned, hsingle⟩
      obtain ⟨rfl, rfl⟩ := Prod.mk.inj (Option.some.inj heq)
      rw [Option.filter_eq_some_iff.mpr ⟨hassigned, hsingle⟩]

/-- The rows of an entity are found under every id as soon as they are under one. -/
theorem resolveGet_single_iff (hsingle : route.target.isSingle = true) (hvalue : '/' ∉ value)
    (hne : value ≠ []) :
    resolveGet routes (pairPath first second ++ '/' :: value) = .found route (some value) ↔
      assigned routes (singlePath first second) = some route ∧
        (singlePath first second).count '/' = 3 := by
  have hcount : (pairPath first second ++ '/' :: value).count '/' =
      (singlePath first second).count '/' := by
    rw [singlePath, count_item, count_item, count_idHole, List.count_eq_zero.mpr hvalue]
  have hitem : (singlePath first second).count '/' = 3 →
      itemOf (pairPath first second ++ '/' :: value) = some (singlePath first second, value) := by
    intro h
    rw [singlePath, count_item] at h
    apply itemOf_item _ _ hvalue hne
    · exact List.count_eq_zero.mp (by omega)
    · exact List.count_eq_zero.mp (by omega)
  rw [resolveGet_item_iff]
  constructor
  · rintro ⟨template, htemplate, hassigned, _⟩
    have hthree := hcount ▸ count_of_itemOf htemplate
    rw [hitem hthree] at htemplate
    obtain ⟨rfl, _⟩ := Prod.mk.inj (Option.some.inj htemplate)
    exact ⟨hassigned, hthree⟩
  · rintro ⟨hassigned, hthree⟩
    exact ⟨singlePath first second, hitem hthree, hassigned, hsingle⟩

/-- The paths of single rows end in `/{id}` below two segments. -/
def SinglesShaped (path : Text) (target : Target) : Prop :=
  target.isSingle = true → ∃ first second, path = singlePath first second

theorem singlePath_eq (first second : Text) :
    singlePath first second = (pairPath first second ++ ['/']) ++ idHole := by
  rw [singlePath, List.append_assoc]
  rfl

/-- The requests for a single row. -/
theorem addresses_single (hsingle : route.target.isSingle = true) :
    Addresses (singlePath first second) route.target request id ↔
      ∃ value, value ≠ [] ∧ '/' ∉ value ∧
        request.path = pairPath first second ++ '/' :: value ∧ id = some value := by
  obtain ⟨target, auth, role⟩ := route
  cases target <;> try cases hsingle
  constructor
  · rintro ⟨stem, value, hpath, hne, hvalue, hrequest, hid⟩
    rw [singlePath_eq] at hpath
    refine ⟨value, hne, hvalue, ?_, hid⟩
    rw [hrequest, ← List.append_cancel_right hpath, List.append_assoc]
    rfl
  · rintro ⟨value, hne, hvalue, hrequest, hid⟩
    refine ⟨pairPath first second ++ ['/'], value, singlePath_eq first second, hne, hvalue, ?_, hid⟩
    rw [hrequest, List.append_assoc]
    rfl

/-- A path leads to its route. -/
def Resolves (routes : Routes) (path : Text) (route : Route) : Prop :=
  ∀ request id, request.method = route.target.method → Addresses path route.target request id →
    resolve routes request = .found route id

theorem resolves_post_iff (hmethod : route.target.method = .post) :
    Resolves routes path route ↔ assigned routes path = some route := by
  have haddresses : ∀ request id, Addresses path route.target request id ↔
      request.path = path ∧ request.query = [] ∧ id = none := by
    intro request id
    cases htarget : route.target <;> simp_all [Target.method, Addresses]
  rw [← resolvePost_found_iff hmethod]
  constructor
  · intro h
    have hfound := h ⟨.post, path, [], none⟩ none hmethod.symm
      ((haddresses _ _).mpr ⟨rfl, rfl, rfl⟩)
    rwa [resolve, if_pos rfl, List.append_nil] at hfound
  · intro h request id hrequest haddress
    obtain ⟨hpath, hquery, rfl⟩ := (haddresses _ _).mp haddress
    rw [hmethod] at hrequest
    rwa [resolve, hrequest, if_pos hquery, List.append_nil, hpath]

theorem resolves_get_iff (hmethod : route.target.method = .get)
    (hsingle : route.target.isSingle = false) :
    Resolves routes path route ↔ resolveGet routes path = .found route none := by
  have haddresses : ∀ request id, Addresses path route.target request id ↔
      request.path = path ∧ id = none := by
    intro request id
    cases htarget : route.target <;> simp_all [Target.method, Target.isSingle, Addresses]
  constructor
  · intro h
    exact h ⟨.get, path, [], none⟩ none hmethod.symm ((haddresses _ _).mpr ⟨rfl, rfl⟩)
  · intro h request id hrequest haddress
    obtain ⟨hpath, rfl⟩ := (haddresses _ _).mp haddress
    rw [hmethod] at hrequest
    rwa [resolve, hrequest, hpath]

theorem resolves_single_iff (hsingle : route.target.isSingle = true) :
    Resolves routes (singlePath first second) route ↔
      assigned routes (singlePath first second) = some route ∧
        (singlePath first second).count '/' = 3 := by
  have hmethod : route.target.method = .get := by
    cases htarget : route.target <;> simp_all [Target.method, Target.isSingle]
  constructor
  · intro h
    have haddress : Addresses (singlePath first second) route.target
        ⟨.get, pairPath first second ++ ['/', 'x'], [], none⟩ (some ['x']) :=
      (addresses_single hsingle).mpr ⟨['x'], by decide, by decide, rfl, rfl⟩
    have hfound := h _ _ hmethod.symm haddress
    exact (resolveGet_single_iff hsingle (by decide) (by decide)).mp hfound
  · intro h request id hrequest haddress
    obtain ⟨value, hne, hvalue, hpath, rfl⟩ := (addresses_single hsingle).mp haddress
    rw [hmethod] at hrequest
    rw [resolve, hrequest, hpath]
    exact (resolveGet_single_iff hsingle hvalue hne).mpr h

/-- **When a path leads to its route**: the table holds the route under it, and the dispatcher
comes to it as what the route leads to. -/
theorem resolves_iff (hshape : SinglesShaped path route.target) :
    Resolves routes path route ↔
      assigned routes path = some route ∧ Reachable (RowsIn routes) path route.target := by
  obtain ⟨target, auth, role⟩ := route
  cases target with
  | workflow id =>
    rw [resolves_post_iff rfl]
    exact (and_iff_left trivial).symm
  | consume workflow event =>
    rw [resolves_post_iff rfl]
    exact (and_iff_left trivial).symm
  | single entity =>
    obtain ⟨first, second, rfl⟩ := hshape rfl
    exact resolves_single_iff rfl
  | subscribe event =>
    rw [resolves_get_iff rfl rfl]
    exact resolveGet_stream_iff
  | list entity field =>
    rw [resolves_get_iff rfl rfl]
    exact resolveGet_direct_iff rfl
  | health =>
    rw [resolves_get_iff rfl rfl]
    exact resolveGet_direct_iff rfl
  | ready =>
    rw [resolves_get_iff rfl rfl]
    exact resolveGet_direct_iff rfl
  | metrics =>
    rw [resolves_get_iff rfl rfl]
    exact resolveGet_direct_iff rfl

/-! ### Who may pass -/

/-- Every route with a role asks for a token, and there is a provider to read the role from. -/
def RolesChecked (app : App) (route : Route) : Prop :=
  ∀ role, route.role = some role → role ≠ "" → route.auth = true ∧ app.provider.isSome = true

/-- `_check_auth` lets exactly those pass who meet the requirements of the route. -/
theorem checkAuth_eq_none_iff (h : RolesChecked app route) :
    checkAuth app route request = none ↔ Met app route request := by
  unfold checkAuth Met
  cases hauth : route.auth with
  | false =>
    have hrole : ∀ role, route.role = some role → ¬ role ≠ "" := by
      intro role hrole hne
      rw [(h role hrole hne).1] at hauth
      cases hauth
    simp only [Bool.not_false, if_true, true_iff]
    exact ⟨fun hfalse => absurd hfalse Bool.false_ne_true,
      fun role h₁ h₂ => absurd h₂ (hrole role h₁)⟩
  | true =>
    simp only [Bool.not_true, Bool.false_eq_true, if_false]
    cases request.authorization with
    | none => simp
    | some header =>
      cases hprovider : app.provider with
      | none =>
        have hrole : ∀ role, route.role = some role → ¬ role ≠ "" := by
          intro role hrole hne
          have hsome := (h role hrole hne).2
          rw [hprovider] at hsome
          cases hsome
        simp only [true_iff]
        exact ⟨fun _ => ⟨header, rfl, fun _ hp => by cases hp⟩,
          fun role h₁ h₂ => absurd h₂ (hrole role h₁)⟩
      | some provider =>
        cases htoken : tokenAccepted app.letters provider header request.path with
        | none => simp [htoken]
        | some role =>
          cases route.role with
          | none => simp [htoken]
          | some required => simp [htoken]

theorem dispatch_eq_handled_iff (h : resolve app.routes request = .found route id) :
    dispatch app request = .handled route.target id ↔ checkAuth app route request = none := by
  unfold dispatch
  simp only [h]
  cases checkAuth app route request <;> simp

/-- There is a request for every route, with any header. -/
theorem exists_addresses (hshape : SinglesShaped path route.target) (header : Option Text) :
    ∃ request id, request.method = route.target.method ∧ request.authorization = header ∧
      Addresses path route.target request id := by
  cases hsingle : route.target.isSingle with
  | true =>
    obtain ⟨first, second, rfl⟩ := hshape hsingle
    refine ⟨⟨route.target.method, pairPath first second ++ ['/', 'x'], [], header⟩, some ['x'], rfl,
      rfl, ?_⟩
    exact (addresses_single hsingle).mpr ⟨['x'], by decide, by decide, rfl, rfl⟩
  | false =>
    refine ⟨⟨route.target.method, path, [], header⟩, none, rfl, rfl, ?_⟩
    cases htarget : route.target <;> simp_all [Addresses, Target.isSingle]

/-- **When a route is served**: its path leads to it, and its role, if it has one, is asked for. -/
theorem serves_iff (hshape : SinglesShaped path route.target)
    (hprovider : Resolves app.routes path route → ∀ role, route.role = some role → role ≠ "" →
      app.provider.isSome = true) :
    Serves app route.target.method path route ↔
      Resolves app.routes path route ∧
        ∀ role, route.role = some role → role ≠ "" → route.auth = true := by
  constructor
  · intro h
    refine ⟨fun request id hmethod haddress => (h request id hmethod haddress).1, ?_⟩
    intro role hrole hne
    -- a request without a header
    obtain ⟨request, id, hmethod, hheader, haddress⟩ := exists_addresses hshape none
    obtain ⟨hfound, hmet⟩ := h request id hmethod haddress
    by_contra hauth
    have hpass : checkAuth app route request = none := by
      unfold checkAuth
      simp [hauth]
    obtain ⟨_, header, _, hsome, _⟩ :=
      (hmet.mp ((dispatch_eq_handled_iff hfound).mpr hpass)).2 role hrole hne
    rw [hheader] at hsome
    cases hsome
  · rintro ⟨hresolves, hsecured⟩ request id hmethod haddress
    have hfound := hresolves request id hmethod haddress
    refine ⟨hfound, ?_⟩
    rw [dispatch_eq_handled_iff hfound]
    exact checkAuth_eq_none_iff fun role hrole hne =>
      ⟨hsecured role hrole hne, hprovider hresolves role hrole hne⟩

/-! ### The declarations -/

theorem singlesShaped_of_mem_declarations (h : declarations S doc = .ok declared)
    (hmem : (path, route) ∈ declared) : SinglesShaped path route.target := by
  obtain ⟨tables, htables, h⟩ := bind_eq_ok.mp h
  obtain ⟨triggers, _, h⟩ := bind_eq_ok.mp h
  obtain ⟨schedules, hschedules, h⟩ := bind_eq_ok.mp h
  obtain ⟨consumed, hconsumed, h⟩ := bind_eq_ok.mp h
  rw [← pure_eq_ok.mp h, List.mem_append, List.mem_append] at hmem
  intro hsingle
  rcases hmem with (hmem | hmem) | hmem
  · obtain ⟨table, htable, hmem⟩ := List.mem_flatten.mp hmem
    obtain ⟨service, _, hservice⟩ := (mem_mapM htables).mp htable
    have hof := ofService_of_mem_serviceRoutes hservice _ hmem
    unfold OfService at hof
    cases htarget : route.target <;> simp_all [Target.isSingle]
  · obtain ⟨trigger, _, hrun⟩ := (mem_mapM hschedules).mp hmem
    obtain ⟨event, _, hrun⟩ := bind_eq_ok.mp hrun
    obtain ⟨name, _, hrun⟩ := bind_eq_ok.mp hrun
    obtain ⟨_, rfl⟩ := Prod.mk.inj (pure_eq_ok.mp hrun)
    cases hsingle
  · obtain ⟨owners, _, hconsumed⟩ := bind_eq_ok.mp hconsumed
    obtain ⟨found, hfound, hconsumed⟩ := bind_eq_ok.mp hconsumed
    rw [← pure_eq_ok.mp hconsumed] at hmem
    obtain ⟨consumes, hconsumes, hmem⟩ := List.mem_flatten.mp hmem
    obtain ⟨node, _, hnode⟩ := (mem_mapM hfound).mp hconsumes
    split at hnode
    · rw [← pure_eq_ok.mp hnode] at hmem
      cases hmem
    · obtain ⟨name, _, hnode⟩ := bind_eq_ok.mp hnode
      rw [← pure_eq_ok.mp hnode] at hmem
      obtain ⟨_, rfl⟩ := Prod.mk.inj (List.mem_singleton.mp hmem)
      cases hsingle

/-- Every operation of the contract is the route of a declaration. -/
theorem mem_declarations_of_mem_generate (h : declarations S doc = .ok declared)
    (hcontract : generate S doc = .ok contract) (hmem : entry ∈ contract) :
    entry ∈ declared := by
  obtain ⟨tables, htables, h⟩ := bind_eq_ok.mp h
  obtain ⟨triggers, _, h⟩ := bind_eq_ok.mp h
  obtain ⟨schedules, hschedules, h⟩ := bind_eq_ok.mp h
  obtain ⟨consumed, hconsumed, h⟩ := bind_eq_ok.mp h
  rw [← pure_eq_ok.mp h, List.mem_append, List.mem_append]
  exact .inl (.inl ((mem_generate_iff htables hcontract).mp hmem))

/-- The operations of the contract stand under the methods of their targets. -/
theorem mem_of_operation (hcontract : generate S doc = .ok contract) :
    ((pathItem contract path).post = some route →
      (path, route) ∈ contract ∧ route.target.method = .post) ∧
    ((pathItem contract path).get = some route →
      (path, route) ∈ contract ∧ route.target.method = .get) := by
  constructor
  · intro h
    obtain ⟨hmem, id, htarget⟩ := mem_of_pathItem.1 h
    rw [htarget]
    exact ⟨hmem, rfl⟩
  · intro h
    obtain ⟨hmem, hworkflow⟩ := mem_of_pathItem.2 h
    refine ⟨hmem, ?_⟩
    have hof := ofService_of_mem_generate hcontract _ hmem
    unfold OfService at hof
    cases htarget : route.target <;> simp_all [Target.method]

theorem makeWsgiApp_ok (h : makeWsgiApp S doc provider = .ok app) :
    appRoutes S doc = .ok app.routes ∧
    ∀ path route, assigned app.routes path = some route → ∀ role, route.role = some role →
      role ≠ "" → app.provider.isSome = true := by
  obtain ⟨routes, hroutes, h⟩ := bind_eq_ok.mp h
  split at h
  · cases h
  · rename_i hgated
    rw [← pure_eq_ok.mp h]
    refine ⟨hroutes, fun path route hassigned role hrole hne => ?_⟩
    by_contra hnone
    apply hgated
    refine ⟨by simpa using hnone, List.ne_nil_of_mem (a := String.ofList path) ?_⟩
    rw [gatedPaths, mem_sortedIds]
    refine List.mem_map_of_mem (a := (path, route)) (List.mem_filter.mpr ⟨?_, ?_⟩)
    · exact mem_dictItems.mpr hassigned
    · simp [hrole, hne]

/-! ### The law -/

theorem not_isSingle_of_mem_opsRoutes (S : Setup) :
    ∀ entry ∈ opsRoutes S, entry.2.target.isSingle = false := by
  unfold opsRoutes
  cases S.metrics <;> decide

theorem Reachable.mono {rows rows' : Text → Prop} {target : Target}
    (hrows : ∀ template, rows' template → rows template) (h : Reachable rows path target) :
    Reachable rows' path target := by
  cases target with
  | subscribe event =>
    obtain ⟨template, id, hitem, hno⟩ := h
    exact ⟨template, id, hitem, fun hrow => hno (hrows template hrow)⟩
  | _ => exact h

/-- A path that is declared alike everywhere, leads to its route in the table. -/
theorem assigned_of_distinct (htable : TableOf (opsRoutes S) declared routes)
    (hmem : (path, route) ∈ declared)
    (hdistinct : ∀ route', (path, route') ∈ declared ++ opsRoutes S → route' = route) :
    assigned routes path = some route := by
  obtain ⟨route', hroute'⟩ := htable.exists_mem path route hmem
  obtain rfl := hdistinct route' (htable.mem _ hroute')
  exact assigned_of_forall hroute' fun route'' h => hdistinct route'' (htable.mem _ h)

/-- The paths that all declarations are served under, keep apart; those that keep apart are
served. -/
theorem serves_iff_separate (h : makeWsgiApp S doc provider = .ok app)
    (hdeclared : declarations S doc = .ok declared)
    (htable : TableOf (opsRoutes S) declared app.routes) :
    (∀ path route, (path, route) ∈ declared → Serves app route.target.method path route) ↔
      Separate (opsRoutes S) declared := by
  have hserves : ∀ path route, (path, route) ∈ declared →
      (Serves app route.target.method path route ↔
        (assigned app.routes path = some route ∧
          Reachable (RowsIn app.routes) path route.target) ∧
        ∀ role, route.role = some role → role ≠ "" → route.auth = true) := by
    intro path route hmem
    have hshape := singlesShaped_of_mem_declarations hdeclared hmem
    rw [serves_iff hshape, resolves_iff hshape]
    intro hresolves
    exact (makeWsgiApp_ok h).2 path route ((resolves_iff hshape).mp hresolves).1
  constructor
  · intro hall
    have hfound := fun path route hmem => (hserves path route hmem).mp (hall path route hmem)
    constructor
    · intro path route route' hmem hmem'
      have hassigned := (hfound path route hmem).1.1
      rcases List.mem_append.mp hmem' with hmem' | hmem'
      · have hassigned' := (hfound path route' hmem').1.1
        exact Option.some.inj (hassigned'.symm.trans hassigned)
      · have hassigned' := htable.assigned_ops path route' hmem'
        exact Option.some.inj (hassigned'.symm.trans hassigned)
    · intro path route role hmem
      exact (hfound path route hmem).2 role
    · intro path route hmem
      apply (hfound path route hmem).1.2.mono
      rintro template ⟨single, hsingle, hrow⟩
      exact ⟨single, (hfound template single hsingle).1.1, hrow⟩
  · intro hseparate path route hmem
    have hassigned := assigned_of_distinct htable hmem fun route' =>
      hseparate.distinct path route route' hmem
    refine (hserves path route hmem).mpr ⟨⟨hassigned, ?_⟩, ?_⟩
    · apply (hseparate.reachable path route hmem).mono
      rintro template ⟨single, hsingle, hrow⟩
      rcases List.mem_append.mp (htable.mem _ (mem_of_assigned hsingle)) with hdecl | hops
      · exact ⟨single, hdecl, hrow⟩
      · rw [not_isSingle_of_mem_opsRoutes S _ hops] at hrow
        cases hrow
    · intro role
      exact hseparate.secured path route role hmem

/-- A service with a workflow `Order` that creates an `Order`, which is exposed as a list. -/
def shop : Document :=
  [{ id := "entity.order", kind := .entity, name := some "Order" },
   { id := "service.shop", kind := .service, name := some "Shop", line := some 4,
     children := ["workflow.order", "service.shop.expose.1"] },
   { id := "service.shop.expose.1", kind := .expose, entity := some "entity.order",
     field := some "total" },
   { id := "workflow.order", kind := .workflow, name := some "Order",
     children := ["workflow.order.create"] },
   { id := "workflow.order.create", kind := .workflowStep, name := some "create",
     children := ["workflow.order.create.repository"] },
   { id := "workflow.order.create.repository", kind := .repositoryCall,
     entity := some "entity.order", operation := some "create" }]

/-- The application of `shop`, where the list has taken the path of the workflow. -/
def shopApp : App where
  letters := .ascii
  routes := [("/shop/order".toList, ⟨.workflow "workflow.order", false, none⟩),
    ("/shop/order".toList, ⟨.list "entity.order" "total", false, none⟩),
    ("/shop/order/{id}".toList, ⟨.single "entity.order", false, none⟩),
    ("/-/healthz".toList, ⟨.health, false, none⟩), ("/-/readyz".toList, ⟨.ready, false, none⟩)]
  provider := none

theorem makeWsgiApp_shop : makeWsgiApp .ascii shop none = .ok shopApp := by
  rfl

end Lnpl.Serve.Routing
