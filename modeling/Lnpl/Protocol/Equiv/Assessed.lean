import Lnpl.Protocol.Equiv.Edits
import Lnpl.Protocol.Equiv.Review

/-!
# Assessed approvals

An approval of the reviewer keeps its promise if and only if the proposal is `Covered`
(`soundApproval_iff`): the assessment reads neither the `source.ref` of a node nor more than one
field of a reference that is given up in several.
-/

namespace Lnpl.Protocol

open Lnpl.Lib Lnpl.Lib.Py

variable {setup : Setup} {digit : Char → Bool} {s : Server} {doc after : Document} {p : Proposal}
  {existing merged declaredKinds : Nodes} {attachMap : List (String × List String)}
  {moveMap : List ((String × String) × String)} {ids : List Key} {drops : Drops}
  {node old new : Node} {key ref : Key} {name : String}

/-! ### Proposed nodes -/

theorem eq_of_countP_le_one {α : Type} {q : α → Bool} {xs : List α} (h : xs.countP q ≤ 1) {a b : α}
    (ha : a ∈ xs) (hb : b ∈ xs) (hqa : q a = true) (hqb : q b = true) : a = b := by
  rw [List.countP_eq_length_filter] at h
  have ha' : a ∈ xs.filter q := List.mem_filter.mpr ⟨ha, hqa⟩
  have hb' : b ∈ xs.filter q := List.mem_filter.mpr ⟨hb, hqb⟩
  match hfilter : xs.filter q with
  | [] =>
    rw [hfilter] at ha'
    cases ha'
  | [x] =>
    rw [hfilter] at ha' hb'
    rw [List.mem_singleton.mp ha', List.mem_singleton.mp hb']
  | x :: y :: rest =>
    rw [hfilter] at h
    simp at h

variable {nodes : List Node} {text : String} {pid reviewTaskId : Value}
  (h : Passed setup digit doc p existing merged declaredKinds attachMap moveMap ids drops)

/-- A proposal has one node of an id that is a text. -/
theorem eq_of_text_id (h : repeatedIds (nodes.map Value.dict) = []) (hnode : node ∈ nodes)
    (hnew : new ∈ nodes) (hid : idKey node = .ok (.str text)) (hid' : idKey new = .ok (.str text)) :
    node = new := by
  unfold repeatedIds at h
  rw [proposedIds_map_dict, List.filter_eq_nil_iff] at h
  have honce := h _ (List.mem_map_of_mem hnode)
  have hvalue := eq_str_of_key? (key?_field_of_idKey hid)
  have hvalue' := eq_str_of_key? (key?_field_of_idKey hid')
  rw [hvalue, List.countP_map] at honce
  have hcount : nodes.countP (fun node => (field node "id").eq (.str text)) ≤ 1 := by
    simpa [Function.comp_def, Value.eq, Value.key?] using honce
  apply eq_of_countP_le_one hcount hnode hnew
  · rw [hvalue]
    simp [Value.eq, Value.key?]
  · rw [hvalue']
    simp [Value.eq, Value.key?]

/-- The node that takes the place of an old one, if the id is a text. -/
theorem replacement_of_text_id (h : repeatedIds (nodes.map Value.dict) = []) (hnode : node ∈ nodes)
    (hid : idKey node = .ok (.str text)) (hold : idKey old = .ok (.str text)) :
    replacement nodes old = some node := by
  cases hreplacement : replacement nodes old with
  | none => exact absurd (hid.trans hold.symm) (replacement_eq_none hreplacement node hnode)
  | some new =>
    obtain ⟨hnew, hid'⟩ := replacement_eq_some hreplacement
    rw [eq_of_text_id h hnode hnew hid (hid'.trans hold)]

include h in
theorem Passed.existing_of_mem
    (hdoc : UniqueIds doc.nodes) (hold : old ∈ doc.nodes) (hkey : idKey old = .ok key) :
    existing.lookup key = some old :=
  lookup_of_mem h.isExisting hdoc hold hkey

/-! ### References that are given up -/

theorem declaredMoves_eq (h : moves setup.quote (p.intent.orElse (.dict [])) = .ok moveMap) :
    declaredMoves setup p = moveMap := by
  unfold declaredMoves
  rw [h]

theorem mem_sortedReferenceKeys : name ∈ sortedReferenceKeys ↔ name ∈ referenceKeys :=
  List.mem_insertionSort _

theorem of_checkedField (h : checkedField old new ref = some name) :
    name ∈ referenceKeys ∧ ∃ text, ref = .str text ∧ text ∈ goneRefs old new name := by
  have hmem := List.mem_of_getLast? h
  obtain ⟨hname, hany⟩ := List.mem_filter.mp hmem
  obtain ⟨text, htext, href⟩ := List.any_eq_true.mp hany
  exact ⟨mem_sortedReferenceKeys.mp hname, text, by simpa using href, htext⟩

variable {source : String} {task : Task} {payload : Fields} {result : Value}
  {mergedNodes : List Node}

/-- What an accepted move says of its destination. -/
theorem of_assessMove {target : String}
    (h : assessMove existing merged drops ((source, text), target) = .ok ()) :
    ∃ name, drops.lookup (.str source, text) = some name ∧
      text ∈ refsIn (merged.lookup (.str target)) name ∧
      text ∉ refsIn (existing.lookup (.str target)) name := by
  unfold assessMove at h
  dsimp only at h
  split at h
  · cases h
  · next name hname =>
    obtain ⟨hlands, h⟩ := of_not_reject h
    split_ifs at h with hnew
    · cases h
    · exact ⟨name, hname, by simpa using hlands, by simpa using hnew⟩

include h in
/-- **A reference whose transfer is checked** lands in the field of its destination. -/
theorem Passed.lands
    (hdoc : UniqueIds doc.nodes) (hdistinct : repeatedIds (p.nodes.map Value.dict) = [])
    (hold : old ∈ doc.nodes) (hnew : replacement p.nodes old = some new)
    (hkey : idKey old = .ok key) (hchecked : Checked doc p old new name ref) :
    Lands setup p doc p.nodes key name ref := by
  obtain ⟨hfield, hlisted⟩ := hchecked
  obtain ⟨hname, text, rfl, hgone⟩ := of_checkedField hfield
  obtain ⟨hmem, hid⟩ := replacement_eq_some hnew
  have hexisting := h.existing_of_mem hdoc hold hkey
  obtain ⟨hreplaces, hdrops⟩ := drops_ok h.isDrops
  -- the move is declared
  have hmove := (hreplaces new hmem key (hid.trans hkey) old hexisting).moved name
    (mem_sortedReferenceKeys.mpr hname) text hgone
  obtain ⟨target, htarget⟩ := Option.isSome_iff_exists.mp hmove
  unfold moveOf at htarget
  split at htarget
  · next source hsource =>
    have hsourceKey : key = .str source := by
      have hvalue := key?_field_of_idKey (hid.trans hkey)
      rw [hsource] at hvalue
      exact (Option.some.inj hvalue).symm
    subst hsourceKey
    have hentry : ((source, text), target) ∈ moveMap := by
      obtain ⟨front, back, rfl, -⟩ := List.lookup_eq_some_iff.mp htarget
      exact List.mem_append_right _ List.mem_cons_self
    obtain ⟨name', hdrop, hlands, hfresh⟩ := of_assessMove (h.moved _ hentry)
    -- the field of the drop is the one that is given up last
    obtain ⟨node, hnode, hnodeId, old', hold', hlast⟩ := hdrops _ _ _ hdrop
    obtain rfl := eq_of_text_id hdistinct hnode hmem hnodeId (hid.trans hkey)
    obtain rfl : old = old' := Option.some.inj (hexisting.symm.trans hold')
    obtain rfl : name = name' := Option.some.inj (hfield.symm.trans hlast)
    refine ⟨source, text, target, rfl, rfl, ?_, ?_, ?_⟩
    · rw [declaredMoves_eq h.isMoves]
      exact htarget
    · rw [lookup_setNodes h.isMerged] at hlands
      cases hfind : p.nodes.reverse.find? fun node => idKey node = .ok (.str target) with
      | none =>
        rw [hfind] at hlands
        exact absurd hlands hfresh
      | some dest =>
        rw [hfind] at hlands
        have hdest := List.mem_reverse.mp (List.mem_of_find?_eq_some hfind)
        refine ⟨dest, hdest, by simpa using List.find?_some hfind, ?_⟩
        refine (mem_refersTo_iff hname fun heq => ?_).mpr hlands
        exact heq ▸ hlisted heq dest (List.mem_append_right _ hdest)
    · intro dest hdest hdestId hrefers
      rw [h.existing_of_mem hdoc hdest hdestId] at hfresh
      refine hfresh ((mem_refersTo_iff hname fun heq => ?_).mp hrefers)
      exact heq ▸ hlisted heq dest (List.mem_append_left _ hdest)
  · cases htarget

/-! ### Nodes outside the rights -/

/-- A node that is not within the rights of the role is one that only attaches. -/
theorem of_withinRights {allowed : List String}
    (h : withinRights allowed existing declaredKinds attachMap node = .ok true)
    (hkind : kindIn allowed (field node "kind") = .ok false) :
    ∃ key, (field node "id").hash = .ok key ∧
      referenceOnlyEdit node (existing.lookup key) (declaredFor attachMap node) declaredKinds =
        .ok true := by
  unfold withinRights at h
  rw [hkind] at h
  obtain ⟨isAllowed, hisAllowed, h⟩ := bind_eq_ok.mp h
  obtain rfl : false = isAllowed := Except.ok.inj hisAllowed
  dsimp only at h
  rw [if_neg Bool.false_ne_true] at h
  split_ifs at h
  · cases pure_eq_ok.mp h
  · obtain ⟨key, hkey, h⟩ := bind_eq_ok.mp h
    obtain ⟨isEdit, hisEdit, h⟩ := bind_eq_ok.mp h
    refine ⟨key, liftM_eq_ok.mp hkey, ?_⟩
    cases isEdit with
    | true => exact liftM_eq_ok.mp hisEdit
    | false => cases pure_eq_ok.mp h

theorem hash_of_idKey (h : idKey node = .ok key) : (field node "id").hash = .ok key := by
  unfold Value.hash
  rw [key?_field_of_idKey h]

include h in
/-- Declared children are authored. -/
theorem Passed.authored {child : String} (hchild : child ∈ declaredFor attachMap node) :
    authoredBy p doc (.str child) = true := by
  unfold declaredFor at hchild
  split at hchild
  · next id _ =>
    cases hlookup : attachMap.lookup id with
    | none =>
      rw [hlookup] at hchild
      cases hchild
    | some children =>
      rw [hlookup] at hchild
      have hentry : (id, children) ∈ attachMap := by
        obtain ⟨front, back, rfl, -⟩ := List.lookup_eq_some_iff.mp hlookup
        exact List.mem_append_right _ List.mem_cons_self
      have hattached := h.attached _ hentry
      have hsorted : child ∈ sortTexts children := (List.mem_insertionSort _).mpr hchild
      have hone := of_forM hattached child hsorted
      unfold assessAttached at hone
      obtain ⟨hauthored, -⟩ := of_not_reject hone
      have hmem : Key.str child ∈ authoredIds existing ids := by simpa using hauthored
      obtain ⟨hid, hlacks⟩ := List.mem_filter.mp hmem
      obtain ⟨node', hnode', hkey⟩ := (mem_mapM h.isIds).mp hid
      have hnone := (lookup_byId_eq_none h.isExisting).mp (Option.isNone_iff_eq_none.mp hlacks)
      unfold authoredBy
      rw [Bool.and_eq_true, List.any_eq_true, Bool.not_eq_true', List.any_eq_false]
      refine ⟨⟨node', hnode', decide_eq_true hkey⟩, fun node hnode => ?_⟩
      simpa using hnone node hnode
  · cases hchild

/-- What a sound document refers to is not authored by a proposal. -/
theorem not_authored_of_refersTo (hdoc : SoundDocument setup.quote doc) (hold : old ∈ doc.nodes)
    (hname : name ∈ referenceKeys) (href : ref ∈ refersTo old name) :
    authoredBy p doc ref = false := by
  obtain ⟨other, hother, hid⟩ := hdoc.resolves hold (List.mem_append_left _ hname) href
  unfold authoredBy
  rw [Bool.and_eq_false_iff, Bool.not_eq_false', List.any_eq_true]
  exact .inr ⟨other, hother, decide_eq_true hid⟩

include h in
/-- **A node outside the rights** is only attached to, where its fields are lists. -/
theorem Passed.attachesOnly (hdoc : SoundDocument setup.quote doc) (hold : old ∈ doc.nodes)
    (hnew : replacement p.nodes old = some new)
    (hkind : kindIn (rightsOf p.role) (field old "kind") = .ok false) :
    (Value.dict (comparable new)).eq (.dict (comparable old)) = true ∧
      ∀ name ∈ referenceKeys, isListed (field old name) = true →
        (refersTo new name).filter (fun key => !authoredBy p doc key) = refersTo old name := by
  obtain ⟨ks, hks, -⟩ := uniqueIds_iff.mp hdoc.1
  obtain ⟨key, -, hkey⟩ := hks.key_of_mem hold
  obtain ⟨hmem, hid⟩ := replacement_eq_some hnew
  have hexisting := h.existing_of_mem hdoc.1 hold hkey
  have hreplaces := (drops_ok h.isDrops).1 new hmem key (hid.trans hkey) old hexisting
  have hkind' : kindIn (rightsOf p.role) (field new "kind") = .ok false := by
    unfold kindIn at hkind ⊢
    rw [hash_of_eq hreplaces.kind]
    exact hkind
  obtain ⟨key', hkey', hedit⟩ := of_withinRights (h.rights new hmem) hkind'
  obtain rfl := Except.ok.inj (hkey'.symm.trans (hash_of_idKey (hid.trans hkey)))
  rw [hexisting] at hedit
  obtain ⟨old', hold', hrest, hkeeps⟩ := of_referenceOnlyEdit hedit
  obtain rfl := Option.some.inj hold'
  refine ⟨hrest, fun name hname hlisted => ?_⟩
  apply refersTo_of_keepsReferences hname hlisted _ _ (hkeeps name hname)
  · intro child hchild
    rw [h.authored hchild]
    rfl
  · intro key hrefers
    rw [not_authored_of_refersTo hdoc hold hname hrefers]
    rfl

/-! ### Provenance -/

/-- A source of the form begins with `kb:`, and has an `@`, or begins with `ir:`. -/
theorem isSource_cases {text : List Char} (h : isSource digit text = true) :
    (∃ rest, text = 'k' :: 'b' :: ':' :: rest ∧ '@' ∈ rest) ∨
      ∃ rest, text = 'i' :: 'r' :: ':' :: rest := by
  unfold isSource at h
  split at h
  · next rest =>
    rw [Bool.and_eq_true] at h
    obtain ⟨-, h⟩ := h
    split at h
    · next version hversion =>
      refine .inl ⟨rest, rfl, ?_⟩
      rw [← List.takeWhile_append_dropWhile (p := isDocChar) (l := rest), hversion]
      exact List.mem_append_right _ List.mem_cons_self
    · cases h
  · next first rest => exact .inr ⟨first :: rest, rfl⟩
  · cases h

theorem sourceForm_cases (h : sourceForm digit source = true) :
    (∃ rest, source.toList = 'k' :: 'b' :: ':' :: rest ∧ '@' ∈ rest) ∨
      ∃ rest, source.toList = 'i' :: 'r' :: ':' :: rest := by
  unfold sourceForm at h
  rw [Bool.or_eq_true, Bool.and_eq_true] at h
  rcases h with h | ⟨hlast, h⟩
  · exact isSource_cases h
  · have hlist : source.toList = source.toList.dropLast ++ ['\n'] := by
      have hget : source.toList.getLast? = some '\n' := of_decide_eq_true hlast
      obtain ⟨front, hfront⟩ := List.getLast?_eq_some_iff.mp hget
      rw [hfront, List.dropLast_concat]
    rcases isSource_cases h with ⟨rest, hrest, hat⟩ | ⟨rest, hrest⟩
    · rw [hlist, hrest]
      exact .inl ⟨rest ++ ['\n'], rfl, List.mem_append_left _ hat⟩
    · rw [hlist, hrest]
      exact .inr ⟨rest ++ ['\n'], rfl⟩

/-- A text is cut at its first `@`. -/
theorem cut_at (rest : List Char) (h : '@' ∈ rest) :
    rest = rest.takeWhile (· ≠ '@') ++ '@' :: (rest.dropWhile (· ≠ '@')).drop 1 := by
  induction rest with
  | nil => cases h
  | cons ch rest ih =>
    by_cases hch : ch = '@'
    · rw [hch, List.takeWhile_cons_of_neg (by simp), List.dropWhile_cons_of_neg (by simp)]
      rfl
    · have hmem : '@' ∈ rest := by
        rcases List.mem_cons.mp h with heq | hmem
        · exact absurd heq.symm hch
        · exact hmem
      rw [List.takeWhile_cons_of_pos (by simpa using hch),
        List.dropWhile_cons_of_pos (by simpa using hch), List.cons_append, ← ih hmem]

include h in
/-- A new node is grounded. -/
theorem Passed.grounded
    (hnode : node ∈ p.nodes) (hadded : ∀ old ∈ doc.nodes, idKey old ≠ idKey node) :
    Grounded setup doc node := by
  have hsource := h.sources node hnode
  obtain ⟨key, hkey, hsource⟩ := bind_eq_ok.mp hsource
  have hkey := liftM_eq_ok.mp hkey
  have hnone : existing.lookup key = none := by
    rw [lookup_byId_eq_none h.isExisting]
    intro old hold
    rw [← hkey]
    exact hadded old hold
  rw [hnone] at hsource
  rw [if_neg (by simp)] at hsource
  obtain ⟨source, hraw, hsource⟩ := bind_eq_ok.mp hsource
  have hget := liftM_eq_ok.mp hraw
  clear hraw
  dsimp only at hsource
  split_ifs at hsource with htruthy
  · cases pure_eq_ok.mp hsource
  · split at hsource
    · next text =>
      split_ifs at hsource with hform
      · cases pure_eq_ok.mp hsource
      · obtain ⟨resolved, hresolved, hsource⟩ := bind_eq_ok.mp hsource
        have hresolved := liftM_eq_ok.mp hresolved
        cases resolved with
        | false => cases pure_eq_ok.mp hsource
        | true =>
          -- the source is in the `meta` of the node
          have hmeta : ∃ info, field node "meta" = .dict info ∧ field info "source" = .str text := by
            unfold Value.orElse at hget
            split_ifs at hget
            · cases hfield : field node "meta" with
              | dict info =>
                rw [hfield] at hget
                exact ⟨info, rfl, Except.ok.inj hget⟩
              | none | bool | int | float | str | list =>
                rw [hfield] at hget
                cases hget
            · cases hget
          obtain ⟨info, hinfo, htext⟩ := hmeta
          refine ⟨info, text, hinfo, htext, ?_⟩
          have hform : sourceForm digit text = true := by simpa using hform
          unfold sourceResolves at hresolved
          rcases sourceForm_cases hform with ⟨rest, hrest, hat⟩ | ⟨rest, hrest⟩
          · have hstarts : "kb:".toList.isPrefixOf text.toList = true := by
              rw [hrest]
              rfl
            rw [hstarts, if_pos rfl, hrest] at hresolved
            refine .inl ⟨_, _, ?_, hresolved⟩
            rw [← String.toList_inj, hrest]
            simp only [String.toList_append, String.toList_ofList]
            have hcut := congrArg (fun rest => 'k' :: 'b' :: ':' :: rest) (cut_at rest hat)
            exact hcut.trans (by simp)
          · have hstarts : "kb:".toList.isPrefixOf text.toList = false := by
              rw [hrest]
              rfl
            rw [hstarts, if_neg Bool.false_ne_true, hrest] at hresolved
            obtain ⟨old, hold⟩ := Option.isSome_iff_exists.mp (Except.ok.inj hresolved)
            obtain ⟨hmem, hid⟩ := mem_of_lookup_byId h.isExisting hold
            refine .inr ⟨String.ofList rest, ?_, old, hmem, hid⟩
            rw [← String.toList_inj, hrest, String.toList_append]
            simp
    · cases hsource

/-! ### The document of an approval -/

/-- What an approving report that is answered with a result leaves. -/
theorem doc_of_decidePending (h : (s.decidePending setup task payload pid p true).2 = .ok result) :
    mergedDocument setup s.doc p.nodes =
      .ok (s.decidePending setup task payload pid p true).1.doc := by
  unfold Server.decidePending at h ⊢
  rw [if_pos rfl] at h ⊢
  dsimp only at h ⊢
  cases happly : (s.setTask task.start).apply setup p with
  | error e =>
    rw [happly] at h
    cases h
  | ok u =>
    obtain ⟨doc, hdoc, hu⟩ := bind_eq_ok.mp happly
    have hsame : u.doc = doc := by rw [← pure_eq_ok.mp hu]
    show _ = Except.ok ((u.setProposal p.id .approved).finish task.start _ _).1.doc
    have hfinish (result : Value) : ((u.setProposal p.id .approved).finish task.start
        (.str "completed") result).1.doc = u.doc :=
      congrArg Prod.fst (record_finish (s := u.setProposal p.id .approved) task.start
        (.str "completed") result)
    rw [hfinish, hsame]
    exact hdoc

/-- A report is answered with its outcome. -/
theorem handle_agentReport (setup : Setup) (s : Server) (params : Fields) :
    s.handle setup [("jsonrpc", .str "2.0"), ("id", .none), ("method", .str "agent.report"),
      ("params", .dict params)] =
        ((s.agentReport setup params).1, .ok (respond .none (s.agentReport setup params).2)) := by
  have hparams : (Value.dict params).orElse (.dict []) = .dict params := by
    unfold Value.orElse
    split_ifs with h
    · rfl
    · cases params with
      | nil => rfl
      | cons => exact absurd rfl h
  have hversion : (Value.str "2.0").eq (.str "2.0") = true := by decide
  exact handle_of_report setup s hversion rfl (by decide) hparams

/-- A call of `agent.report` leaves what the report leaves, and has its result. -/
theorem call_agentReport (setup : Setup) (s : Server) (params : Fields) :
    (s.call setup "agent.report" params).1 = (s.agentReport setup params).1 ∧
      ∀ result, (s.call setup "agent.report" params).2 = .ok result →
        (s.agentReport setup params).2 = .ok result := by
  unfold Server.call
  dsimp only
  rw [handle_agentReport]
  cases (s.agentReport setup params).2 with
  | ok value =>
    refine ⟨rfl, fun result h => ?_⟩
    simpa [respond, field, field?, List.lookup_cons] using h
  | error e =>
    cases e with
    | rpc e => exact ⟨rfl, fun result h => by cases h⟩
    | exception e => exact ⟨rfl, fun result h => by cases h⟩

/-- A decision to approve that is answered with a result leaves the merged document. -/
theorem doc_of_decide (hproposal : s.proposal (field payload "proposal_id") = .ok (some p))
    (happroved : (field payload "decision").eq (.str "approved") = true)
    (h : (s.decide setup task (.dict payload)).2 = .ok result) :
    mergedDocument setup s.doc p.nodes = .ok (s.decide setup task (.dict payload)).1.doc := by
  unfold Server.decide at h ⊢
  dsimp only at h ⊢
  rw [hproposal] at h ⊢
  dsimp only at h ⊢
  rw [happroved] at h ⊢
  split_ifs at h ⊢ with hrole hstate
  · cases h
  · cases h
  · exact doc_of_decidePending h

/-- **An approval** leaves the merged document. -/
theorem Approves.isMerged (h : Approves setup digit s reviewTaskId pid p after) :
    mergedDocument setup s.doc p.nodes = .ok after := by
  obtain ⟨why, hassessed⟩ := h.assessed
  obtain ⟨result, hanswered⟩ := h.answered
  have hafter := h.isAfter
  unfold Server.review at hanswered hafter
  rw [hassessed] at hanswered hafter
  dsimp only at hanswered hafter
  obtain ⟨hserver, hresult⟩ :=
    call_agentReport setup s (decisionParams reviewTaskId pid true why)
  have hreport := hresult result (Option.some.inj hanswered)
  rw [hserver] at hafter
  rw [← hafter]
  unfold Server.agentReport at hreport ⊢
  dsimp only at hreport ⊢
  cases htask : s.task (field (decisionParams reviewTaskId pid true why) "task_id") with
  | error e =>
    rw [htask] at hreport
    cases hreport
  | ok found =>
    rw [htask] at hreport
    cases found with
    | none => cases hreport
    | some task =>
      have happroved : (Value.str "approved").eq (.str "approved") = true := by decide
      exact doc_of_decide h.isProposal happroved hreport

/-! ### The merged document -/

theorem nodes_of_mergedDocument (h : mergedDocument setup doc nodes = .ok after) :
    mergeNodes doc.nodes nodes = .ok after.nodes := by
  unfold mergedDocument at h
  obtain ⟨merged, hmerged, h⟩ := bind_eq_ok.mp h
  obtain ⟨mergedIds, -, h⟩ := bind_eq_ok.mp h
  obtain ⟨_, -, h⟩ := bind_eq_ok.mp h
  obtain ⟨map, -, h⟩ := bind_eq_ok.mp h
  obtain ⟨fault, -, h⟩ := bind_eq_ok.mp h
  have hafter : after.nodes = merged := by
    split at h
    · cases h
    · split at h
      · rw [← pure_eq_ok.mp h]
      · dsimp only at h
        split at h
        · rw [← pure_eq_ok.mp h]
        · cases h
  rw [hafter]
  exact liftM_eq_ok.mp hmerged

/-- The nodes of a merged document. -/
theorem mem_merged (hdoc : UniqueIds doc.nodes) (h : mergeNodes doc.nodes nodes = .ok mergedNodes) :
    node ∈ mergedNodes ↔
      (∃ old ∈ doc.nodes, (replacement nodes old).getD old = node) ∨
        node ∈ nodes ∧ ∀ old ∈ doc.nodes, idKey old ≠ idKey node := by
  obtain ⟨ks, hks, -⟩ := uniqueIds_iff.mp hdoc
  obtain ⟨ks', hks', h⟩ := bind_eq_ok.mp h
  obtain rfl : ks = ks' := Except.ok.inj ((mapM_eq_ok.mpr hks).symm.trans hks')
  rw [merged_eq hks h, List.mem_append, List.mem_map, mem_addedNodes]
  apply or_congr_right
  apply and_congr_right
  intro _
  constructor
  · intro hadded old hold heq
    obtain ⟨key, hmem, hkey⟩ := hks.key_of_mem hold
    exact hadded key hmem (heq.symm.trans hkey)
  · intro hadded key hmem heq
    obtain ⟨old, hold, hid⟩ := hks.node_of_mem hmem
    exact hadded old hold (hid.trans heq.symm)

/-- The node that a document has in the place of an old one. -/
theorem eq_replacement (hdoc : UniqueIds doc.nodes)
    (h : mergeNodes doc.nodes nodes = .ok mergedNodes) (hold : old ∈ doc.nodes)
    (hnew : new ∈ mergedNodes) (hid : idKey new = idKey old) :
    new = (replacement nodes old).getD old := by
  rcases (mem_merged hdoc h).mp hnew with ⟨old', hold', rfl⟩ | ⟨-, hadded⟩
  · rw [idKey_replacement] at hid
    rw [hdoc.eq_of_idKey hold' hold hid]
  · exact absurd hid.symm (hadded old hold)

/-- A destination is in the merged document if and only if it is proposed. -/
theorem lands_merged_iff (hdoc : UniqueIds doc.nodes)
    (hdistinct : repeatedIds (p.nodes.map Value.dict) = [])
    (h : mergeNodes doc.nodes p.nodes = .ok after.nodes) :
    Lands setup p doc after.nodes key name ref ↔ Lands setup p doc p.nodes key name ref := by
  constructor
  · rintro ⟨source, text, target, hkey, href, hmove, ⟨dest, hdest, hid, hrefers⟩, hfresh⟩
    refine ⟨source, text, target, hkey, href, hmove, ⟨dest, ?_, hid, hrefers⟩, hfresh⟩
    rcases (mem_merged hdoc h).mp hdest with ⟨old, hold, rfl⟩ | ⟨hmem, -⟩
    · cases hreplacement : replacement p.nodes old with
      | none =>
        rw [hreplacement] at hid hrefers
        exact absurd hrefers (hfresh old hold hid)
      | some new => exact (replacement_eq_some hreplacement).1
    · exact hmem
  · rintro ⟨source, text, target, hkey, href, hmove, ⟨dest, hdest, hid, hrefers⟩, hfresh⟩
    refine ⟨source, text, target, hkey, href, hmove, ⟨dest, ?_, hid, hrefers⟩, hfresh⟩
    rw [mem_merged hdoc h]
    by_cases hexists : ∃ old ∈ doc.nodes, idKey old = idKey dest
    · obtain ⟨old, hold, holdId⟩ := hexists
      have hreplacement := replacement_of_text_id hdistinct hdest hid (holdId.trans hid)
      exact .inl ⟨old, hold, by rw [hreplacement]; rfl⟩
    · exact .inr ⟨hdest, fun old hold heq => hexists ⟨old, hold, heq⟩⟩

/-! ### The law -/

/-- The nodes of a recorded proposal have ids of their own. -/
theorem Recorded.distinct (h : Recorded setup p) : repeatedIds (p.nodes.map Value.dict) = [] := by
  obtain ⟨doc, params, hcheck⟩ := h
  exact repeatedIds_of_checkProposal hcheck

theorem Approves.passed (h : Approves setup digit s reviewTaskId pid p after) :
    ∃ existing merged declaredKinds attachMap moveMap ids drops,
      Passed setup digit s.doc p existing merged declaredKinds attachMap moveMap ids drops := by
  obtain ⟨why, hassessed⟩ := h.assessed
  unfold Server.assess at hassessed
  rw [h.isProposal] at hassessed
  dsimp only at hassessed
  split at hassessed
  · next hpassed => exact passed_of_assessProposal hpassed
  · cases (Prod.mk.inj (Except.ok.inj hassessed)).1
  · cases hassessed

include h in
/-- A new node is within the rights of the role. -/
theorem Passed.within
    (hnode : node ∈ p.nodes) (hadded : ∀ old ∈ doc.nodes, idKey old ≠ idKey node) :
    kindIn (rightsOf p.role) (field node "kind") = .ok true := by
  have hrights := h.rights node hnode
  cases hkind : kindIn (rightsOf p.role) (field node "kind") with
  | error e =>
    unfold withinRights at hrights
    rw [hkind] at hrights
    cases hrights
  | ok isAllowed =>
    cases isAllowed with
    | true => rfl
    | false =>
      obtain ⟨key, hkey, hedit⟩ := of_withinRights hrights hkind
      obtain ⟨old, hold, -⟩ := of_referenceOnlyEdit hedit
      obtain ⟨hmem, hid⟩ := mem_of_lookup_byId h.isExisting hold
      obtain ⟨id, -, hnodeId⟩ := exists_of_mapM h.isIds hnode
      obtain rfl := Except.ok.inj (hkey.symm.trans (hash_of_idKey hnodeId))
      exact absurd (hid.trans hnodeId.symm) (hadded old hmem)

/-- **Assessed approvals.**  Of a sound document and a recorded proposal, an approval keeps every
node, its kind and its references, attaches only outside the rights, and adds what is within them
and grounded, if and only if the proposal is covered by the assessment. -/
theorem soundApproval_iff (setup : Setup) (digit : Char → Bool) (s : Server)
    (reviewTaskId pid : Value) (p : Proposal) (after : Document)
    (hdoc : SoundDocument setup.quote s.doc) (hrecorded : Recorded setup p)
    (happroves : Approves setup digit s reviewTaskId pid p after) :
    SoundApproval setup p s.doc after ↔ Covered setup s.doc p := by
  have hdistinct := hrecorded.distinct
  have hmerge := nodes_of_mergedDocument happroves.isMerged
  obtain ⟨existing, merged, declaredKinds, attachMap, moveMap, ids, drops, h⟩ := happroves.passed
  have hreplaced : ∀ old ∈ s.doc.nodes, (replacement p.nodes old).getD old ∈ after.nodes :=
    fun old hold => (mem_merged hdoc.1 hmerge).mpr (.inl ⟨old, hold, rfl⟩)
  have hidOf : ∀ old ∈ s.doc.nodes, ∃ key, idKey old = .ok key := by
    intro old hold
    obtain ⟨ks, hks, -⟩ := uniqueIds_iff.mp hdoc.1
    obtain ⟨key, -, hkey⟩ := hks.key_of_mem hold
    exact ⟨key, hkey⟩
  constructor
  · intro hlaw
    constructor
    · intro old hold new hnew key hkey name hname ref href hgone _
      have hmem := hreplaced old hold
      rw [hnew] at hmem
      have hid := (replacement_eq_some hnew).2
      rcases hlaw.references old hold new hmem key hkey (hid.trans hkey) name hname ref href with
        hkept | hlands
      · exact absurd hkept hgone
      · exact (lands_merged_iff hdoc.1 hdistinct hmerge).mp hlands
    · intro old hold new hnew hkind hne name hname _
      have hmem := hreplaced old hold
      rw [hnew] at hmem
      rcases hlaw.outside old hold new hmem (replacement_eq_some hnew).2 hkind with heq | hattaches
      · exact absurd heq hne
      · exact hattaches.references name hname
  · intro hcovered
    constructor
    · intro old hold
      refine ⟨_, hreplaced old hold, idKey_replacement p.nodes old, ?_⟩
      cases hnew : replacement p.nodes old with
      | none => rfl
      | some new =>
        obtain ⟨hmem, hid⟩ := replacement_eq_some hnew
        obtain ⟨key, hkey⟩ := hidOf old hold
        have hexisting := h.existing_of_mem hdoc.1 hold hkey
        have hreplaces := (drops_ok h.isDrops).1 new hmem key (hid.trans hkey) old hexisting
        exact hash_of_eq hreplaces.kind
    · intro old hold new hmem key hkey hid name hname ref href
      have hnew := eq_replacement hdoc.1 hmerge hold hmem (hid.trans hkey.symm)
      cases hreplacement : replacement p.nodes old with
      | none =>
        rw [hreplacement] at hnew
        rw [hnew]
        exact .inl href
      | some new' =>
        rw [hreplacement] at hnew
        obtain rfl : new = new' := hnew
        by_cases hkept : ref ∈ refersTo new name
        · exact .inl hkept
        · right
          rw [lands_merged_iff hdoc.1 hdistinct hmerge]
          by_cases hchecked : Checked s.doc p old new name ref
          · exact h.lands hdoc.1 hdistinct hold hreplacement hkey hchecked
          · exact hcovered.references old hold new hreplacement key hkey name hname ref href hkept
              hchecked
    · intro old hold new hmem hid hkind
      have hnew := eq_replacement hdoc.1 hmerge hold hmem hid
      cases hreplacement : replacement p.nodes old with
      | none =>
        rw [hreplacement] at hnew
        exact .inl hnew
      | some new' =>
        rw [hreplacement] at hnew
        obtain rfl : new = new' := hnew
        by_cases hsame : new = old
        · exact .inl hsame
        · right
          obtain ⟨hrest, hlists⟩ := h.attachesOnly hdoc hold hreplacement hkind
          refine ⟨hrest, fun name hname => ?_⟩
          cases hlisted : isListed (field old name) with
          | true => exact hlists name hname hlisted
          | false =>
            exact hcovered.outside old hold new hreplacement hkind hsame name hname hlisted
    · intro new hmem hadded
      rcases (mem_merged hdoc.1 hmerge).mp hmem with ⟨old, hold, rfl⟩ | ⟨hproposed, -⟩
      · exact absurd (idKey_replacement p.nodes old).symm (hadded old hold)
      · exact ⟨h.within hproposed hadded, h.grounded hproposed hadded⟩

/-! ### Recorded proposals -/

/-- A decision keeps what a proposal was recorded with. -/
theorem recorded_decided {pid : String} {state : ProposalState} {proposals : List Proposal}
    (h : ∀ p ∈ proposals, Recorded setup p) :
    ∀ p ∈ decided pid state proposals, Recorded setup p := by
  intro p hp
  obtain ⟨before, hbefore, heq⟩ := mem_decided.mp hp
  obtain ⟨doc, params, hcheck⟩ := h before hbefore
  refine ⟨doc, params, ?_⟩
  rw [← heq]
  split_ifs
  · exact hcheck
  · exact hcheck

/-- **Every proposal of a server** that is reached was recorded. -/
theorem recorded_of_reaches {t : Server} {C : Server → Fields → Prop}
    (hs : ∀ p ∈ s.proposals, Recorded setup p) (h : Reaches (step setup) C s t) :
    ∀ p ∈ t.proposals, Recorded setup p := by
  apply h.invariant (I := fun t => ∀ p ∈ t.proposals, Recorded setup p) _ hs
  intro s request t hs _ heq
  rw [← Option.some.inj heq]
  apply handle_induct (P := fun t => ∀ p ∈ t.proposals, Recorded setup p) hs
  · intro handler params
    cases handler with
    | agentCard | irGet | kbRoute | kbLoad | kbVerify => exact hs
    | agentDispatch =>
      unfold Server.run
      cases hrun : s.agentDispatch setup params with
      | error e => exact hs
      | ok result =>
        obtain ⟨t, task⟩ := result
        obtain ⟨rfl, -, -⟩ := agentDispatch_ok hrun
        exact hs
    | irPropose =>
      unfold Server.run
      cases hrun : s.irPropose setup params with
      | error e => exact hs
      | ok result =>
        obtain ⟨t, value⟩ := result
        obtain ⟨task, proposal, -, -, -, -, -, hcheck, rfl⟩ := irPropose_ok hrun
        intro p hp
        rcases List.mem_append.mp hp with hp | hp
        · exact hs p hp
        · rw [List.mem_singleton.mp hp]
          exact ⟨s.doc, params, hcheck⟩
    | agentReport =>
      have hreport : ReportChange setup s params (s.agentReport setup params).1 :=
        reportChange_of_agentReport
      show ∀ p ∈ (s.agentReport setup params).1.proposals, Recorded setup p
      cases hreport with
      | none heq =>
        rw [show (s.agentReport setup params).1.proposals = s.proposals from
          congrArg (fun record => record.2.2) heq]
        exact hs
      | rejected q _ _ heq =>
        rw [show (s.agentReport setup params).1.proposals = decided q.id .rejected s.proposals from
          congrArg (fun record => record.2.2) heq]
        exact recorded_decided hs
      | approved a _ _ heq =>
        rw [show (s.agentReport setup params).1.proposals =
          decided a.proposal.id .approved s.proposals from congrArg (fun record => record.2.2) heq]
        exact recorded_decided hs
  · intro t idem ht
    exact ht

/-! ### A source that is dropped -/

/-- `SoundDocument`, computed. -/
def isSound (quote : String → String) (doc : Document) : Bool :=
  (match doc.nodes.mapM idKey with
    | .ok keys => decide keys.Nodup
    | .error _ => false) &&
  match byId doc.nodes with
  | .ok merged =>
    match structureFault quote merged with
    | .ok none => true
    | _ => false
  | .error _ => false

theorem soundDocument_of_isSound {quote : String → String} (h : isSound quote doc = true) :
    SoundDocument quote doc := by
  unfold isSound at h
  rw [Bool.and_eq_true] at h
  obtain ⟨hids, hfault⟩ := h
  constructor
  · split at hids
    · next keys hkeys => exact ⟨keys, hkeys, of_decide_eq_true hids⟩
    · cases hids
  · split at hfault
    · next merged hmerged =>
      split at hfault
      · next hnone => exact ⟨merged, hmerged, hnone⟩
      · cases hfault
    · cases hfault

/-- `Approves`, computed. -/
def isApproved (setup : Setup) (digit : Char → Bool) (s : Server) (reviewTaskId pid : Value) :
    Bool :=
  (match s.assess setup digit pid with
    | .ok (approve, _) => approve
    | .error _ => false) &&
  match (s.review setup digit reviewTaskId pid).2 with
  | some (.ok _) => true
  | _ => false

theorem approves_of_isApproved (hproposal : s.proposal pid = .ok (some p))
    (h : isApproved setup digit s reviewTaskId pid = true) :
    Approves setup digit s reviewTaskId pid p (s.review setup digit reviewTaskId pid).1.doc := by
  unfold isApproved at h
  rw [Bool.and_eq_true] at h
  obtain ⟨hassess, hreview⟩ := h
  refine ⟨hproposal, ?_, ?_, rfl⟩
  · split at hassess
    · next why happrove => exact ⟨why, hassess ▸ happrove⟩
    · cases hassess
  · split at hreview
    · next result hresult => exact ⟨result, hresult⟩
    · cases hreview

/-- An Entity, and an Event with its source. -/
def sourceDocument : Document where
  lirVersion := .str "0.1"
  module := .str "shop"
  nodes := [
    [("kind", .str "Entity"), ("id", .str "entity.order"), ("name", .str "order")],
    [("kind", .str "Event"), ("id", .str "event.placed"), ("name", .str "placed"),
      ("source", .dict [("ref", .str "entity.order"), ("on", .str "create")])]]

/-- An Architect proposes the Event without its source. -/
def sourceRequest : Fields :=
  proposeNode "k-1" (.dict [("kind", .str "Event"), ("id", .str "event.placed"),
    ("name", .str "placed")])

def sourceServer : Server :=
  (exec (step bareSetup) { doc := sourceDocument } [sourceRequest]).get (by decide)

def sourceProposal : Proposal :=
  (sourceServer.proposals.find? fun p => p.id = "prop-0001").get (by decide)

/-- What the reviewer leaves. -/
def sourceAfter : Document :=
  (sourceServer.review bareSetup Char.isDigit (.str "task-0001") (.str "prop-0001")).1.doc

theorem proposal_source :
    sourceServer.proposal (.str "prop-0001") = .ok (some sourceProposal) := by
  show Except.ok (sourceServer.proposals.find? fun p => p.id = "prop-0001") = _
  rw [sourceProposal, Option.some_get]

theorem recorded_source : Recorded bareSetup sourceProposal := by
  have hrun : exec (step bareSetup) { doc := sourceDocument } [sourceRequest] = some sourceServer :=
    (Option.some_get _).symm
  apply recorded_of_reaches _ (reaches_of_exec hrun) _ (proposal_ok proposal_source)
  intro p hp
  cases hp

theorem sound_source : SoundDocument bareSetup.quote sourceServer.doc :=
  soundDocument_of_isSound (by decide)

theorem approves_source : Approves bareSetup Char.isDigit sourceServer (.str "task-0001")
    (.str "prop-0001") sourceProposal sourceAfter :=
  approves_of_isApproved proposal_source (by decide)

/-- The reviewer assesses the Event without its source, and approves. -/
theorem soundApproval_iff_source :
    SoundApproval bareSetup sourceProposal sourceServer.doc sourceAfter ↔
      Covered bareSetup sourceServer.doc sourceProposal :=
  soundApproval_iff bareSetup Char.isDigit sourceServer (.str "task-0001") (.str "prop-0001")
    sourceProposal sourceAfter sound_source recorded_source approves_source

/-- The reference of the source is gone, and no move is declared. -/
theorem not_soundApproval : ¬ ∀ setup digit s reviewTaskId pid p after,
    SoundDocument setup.quote s.doc → Recorded setup p →
      Approves setup digit s reviewTaskId pid p after → SoundApproval setup p s.doc after := by
  intro hlaw
  have h := hlaw _ _ _ _ _ _ _ sound_source recorded_source approves_source
  let old := sourceServer.doc.nodes.get ⟨1, by decide⟩
  let new := sourceAfter.nodes.get ⟨1, by decide +kernel⟩
  have hkept := h.references old (List.get_mem _ _) new (List.get_mem _ _) (.str "event.placed")
    (by decide) (by decide) "source.ref" (by decide) (.str "entity.order")
    (by decide)
  rcases hkept with hkept | ⟨source, text, target, -, -, hmove, -⟩
  · exact absurd hkept (by decide)
  · have hnone : declaredMoves bareSetup sourceProposal = [] := by decide
    rw [hnone] at hmove
    cases hmove

end Lnpl.Protocol
