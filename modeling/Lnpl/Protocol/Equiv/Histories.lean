import Lnpl.Protocol.Equiv.Assessed
import Lnpl.Protocol.Histories

/-!
# Lost edits

An approval puts the whole nodes of the proposal in the place of those of the moment
(`nodeOf_merged`).  Where its author has left a field alone, that is the field of the document it
was made against, which earlier approvals may have changed since: edits are kept if and only if
approved proposals are fresh (`editLaw_fresh`).
-/

namespace Lnpl.Protocol

open Lnpl.Lib Lnpl.Lib.Py

variable {setup : Setup} {digit : Char → Bool} {s : Server} {h h' : History} {deed : Deed}
  {doc base after : Document} {p : Proposal} {nodes docNodes merged : List Node} {key : Key}
  {name : String}

/-! ### The nodes of a merged document -/

theorem nodeOf_append (docNodes nodes : List Node) (key : Key) :
    nodeOf (docNodes ++ nodes) key = (nodeOf nodes key).or (nodeOf docNodes key) := by
  unfold nodeOf
  rw [List.reverse_append, List.find?_append]

theorem nodeOf_eq_none : nodeOf nodes key = none ↔ ∀ node ∈ nodes, idKey node ≠ .ok key := by
  unfold nodeOf
  rw [List.find?_eq_none]
  simp

theorem nodeOf_eq_some {node : Node} (h : nodeOf nodes key = some node) :
    node ∈ nodes ∧ idKey node = .ok key := by
  have hmem := List.mem_of_find?_eq_some h
  have hid := List.find?_some h
  exact ⟨List.mem_reverse.mp hmem, by simpa using hid⟩

theorem nodeOf_cons (first : Node) (nodes : List Node) (key : Key) :
    nodeOf (first :: nodes) key = (nodeOf nodes key).or (nodeOf [first] key) :=
  nodeOf_append [first] nodes key

/-- The nodes of an id are all that matters. -/
theorem nodeOf_filter {q : Node → Bool} (h : ∀ node ∈ nodes, idKey node = .ok key → q node = true) :
    nodeOf (nodes.filter q) key = nodeOf nodes key := by
  induction nodes with
  | nil => rfl
  | cons first nodes ih =>
    have hrest := ih fun node hnode => h node (List.mem_cons_of_mem first hnode)
    rw [nodeOf_cons, ← hrest]
    by_cases hq : q first = true
    · rw [List.filter_cons_of_pos hq, nodeOf_cons]
    · have hfirst : nodeOf [first] key = none := by
        rw [nodeOf_eq_none]
        intro node hnode hid
        obtain rfl := List.mem_singleton.mp hnode
        exact hq (h node List.mem_cons_self hid)
      rw [List.filter_cons_of_neg hq, hfirst, Option.or_none]

/-- The nodes that take the place of those of the document. -/
theorem nodeOf_replaced (docNodes nodes : List Node) (key : Key) :
    nodeOf (docNodes.map fun old => (replacement nodes old).getD old) key =
      (nodeOf docNodes key).map fun old => (nodeOf nodes key).getD old := by
  induction docNodes with
  | nil => rfl
  | cons first docNodes ih =>
    have hfirst : nodeOf [(replacement nodes first).getD first] key =
        (nodeOf [first] key).map fun old => (nodeOf nodes key).getD old := by
      unfold nodeOf
      rw [List.reverse_singleton, List.reverse_singleton, List.find?_singleton,
        List.find?_singleton, idKey_replacement]
      by_cases hid : idKey first = .ok key
      · simp only [hid, decide_true, if_true, Option.map_some]
        unfold replacement
        rw [hid]
      · simp only [hid, decide_false, Bool.false_eq_true, if_false, Option.map_none]
    rw [List.map_cons, nodeOf_cons, ih, hfirst, nodeOf_cons first docNodes]
    cases nodeOf docNodes key with
    | none => rfl
    | some old => rfl

/-- **The nodes of a merged document** are those of the proposal, and behind them, those of the
document. -/
theorem nodeOf_merged (h : mergeNodes docNodes nodes = .ok merged) (key : Key) :
    nodeOf merged key = nodeOf (docNodes ++ nodes) key := by
  obtain ⟨ks, hks, h⟩ := bind_eq_ok.mp h
  have hkeyed : Keyed docNodes ks := mapM_eq_ok.mp hks
  rw [merged_eq hkeyed h, nodeOf_append, nodeOf_append, nodeOf_replaced]
  cases hold : nodeOf docNodes key with
  | none =>
    -- the proposed nodes of the id are new
    have hnew : ∀ node ∈ nodes, idKey node = .ok key → node ∈ addedNodes ks nodes := by
      intro node hnode hid
      rw [mem_addedNodes]
      refine ⟨hnode, fun key' hkey' heq => ?_⟩
      obtain ⟨old, hmem, hidOld⟩ := hkeyed.node_of_mem hkey'
      rw [hid] at heq
      exact nodeOf_eq_none.mp hold old hmem (hidOld.trans heq.symm)
    have hadded : nodeOf (addedNodes ks nodes) key = nodeOf nodes key :=
      nodeOf_filter fun node hnode hid => (List.mem_filter.mp (hnew node hnode hid)).2
    rw [hadded]
    rfl
  | some old =>
    obtain ⟨hmem, hid⟩ := nodeOf_eq_some hold
    obtain ⟨key', hkey', hidOld⟩ := hkeyed.key_of_mem hmem
    have hadded : nodeOf (addedNodes ks nodes) key = none := by
      rw [nodeOf_eq_none]
      intro node hnode heq
      exact (mem_addedNodes.mp hnode).2 key' hkey' (heq.trans (hid.symm.trans hidOld))
    rw [hadded]
    cases nodeOf nodes key with
    | none => rfl
    | some node => rfl

/-- A field of a merged document. -/
theorem valueAt_merged (h : mergedDocument setup doc nodes = .ok after) (key : Key)
    (name : String) :
    valueAt after.nodes key name = valueAt (doc.nodes ++ nodes) key name := by
  unfold valueAt
  rw [nodeOf_merged (nodes_of_mergedDocument h)]

/-- A node that is not proposed is the document's. -/
theorem valueAt_append_none (h : nodeOf nodes key = none) :
    valueAt (docNodes ++ nodes) key name = valueAt docNodes key name := by
  unfold valueAt
  rw [nodeOf_append, h]
  rfl

/-- A node that is proposed is the same on every document. -/
theorem valueAt_append_some {node : Node} (h : nodeOf nodes key = some node)
    (name : String) (docNodes docNodes' : List Node) :
    valueAt (docNodes ++ nodes) key name = valueAt (docNodes' ++ nodes) key name := by
  unfold valueAt
  rw [nodeOf_append, nodeOf_append, h]
  rfl

/-! ### What a deed can do -/

/-- A deed changes what some request can change. -/
theorem change_of_deed (setup : Setup) (digit : Char → Bool) (s : Server) (deed : Deed) :
    ∃ request, Change setup s request (deed.run setup digit s) := by
  cases deed with
  | ask request => exact ⟨request, change_of_handle⟩
  | review reviewTaskId pid =>
    show ∃ request, Change setup s request (s.review setup digit reviewTaskId pid).1
    unfold Server.review
    split
    · exact ⟨[], .none rfl⟩
    · next approve reason _ =>
      refine ⟨[("jsonrpc", .str "2.0"), ("id", .none), ("method", .str "agent.report"),
        ("params", .dict (decisionParams reviewTaskId pid approve reason))], ?_⟩
      have hcall := (call_agentReport setup s
        (decisionParams reviewTaskId pid approve reason)).1
      show Change setup s _
        (s.call setup "agent.report" (decisionParams reviewTaskId pid approve reason)).1
      rw [hcall, ← congrArg Prod.fst (handle_agentReport setup s _)]
      exact change_of_handle

/-- A proposal that is found is the one of its id. -/
theorem proposal_of_id {pid : Value} (h : s.proposal pid = .ok (some p)) :
    s.proposal (.str p.id) = .ok (some p) := by
  unfold Server.proposal at h
  obtain ⟨key, -, h⟩ := bind_eq_ok.mp h
  split at h
  · next id =>
    have hfind := pure_eq_ok.mp h
    have hid : p.id = id := by simpa using List.find?_some hfind
    rw [hid]
    exact congrArg Except.ok hfind
  · cases pure_eq_ok.mp h

/-- A deed that approves a proposal merges it, and any other one keeps the document. -/
theorem doc_of_deed (setup : Setup) (digit : Char → Bool) (s : Server) (deed : Deed) :
    ((deed.run setup digit s).doc = s.doc ∧ (deed.run setup digit s).applied = s.applied) ∨
      ∃ p, s.proposal (.str p.id) = .ok (some p) ∧
        mergedDocument setup s.doc p.nodes = .ok (deed.run setup digit s).doc ∧
        (deed.run setup digit s).applied = s.applied ++ [p.id] ∧
        (deed.run setup digit s).proposals.length = s.proposals.length := by
  obtain ⟨request, hchange⟩ := change_of_deed setup digit s deed
  cases hchange with
  | none h =>
    left
    exact ⟨congrArg Prod.fst h, congrArg (fun record => record.2.1) h⟩
  | proposed p _ _ _ h =>
    left
    exact ⟨congrArg Prod.fst h, congrArg (fun record => record.2.1) h⟩
  | rejected p _ _ h =>
    left
    exact ⟨congrArg Prod.fst h, congrArg (fun record => record.2.1) h⟩
  | approved a doc hmerged h =>
    right
    have hdoc : (deed.run setup digit s).doc = doc := congrArg Prod.fst h
    have happlied := congrArg (fun record => record.2.1) h
    have hproposals := congrArg (fun record => record.2.2.length) h
    refine ⟨a.proposal, proposal_of_id a.report.isProposal, hdoc ▸ hmerged, happlied, ?_⟩
    exact hproposals.trans (List.length_map _)

/-! ### Chains of edits -/

/-- Edits that lead from one document to another. -/
inductive Leads : Document → List Edit → Document → Prop where
  | refl (doc : Document) : Leads doc [] doc
  | tail {doc : Document} {edits : List Edit} (edit : Edit) (h : Leads doc edits edit.before) :
      Leads doc (edits ++ [edit]) edit.after

/-- What is not as it was has been changed by some edit, and by none since. -/
theorem Leads.last_change {α : Type} (f : Document → α) {edits : List Edit}
    (h : Leads base edits doc) (hne : f doc ≠ f base) :
    ∃ edit ∈ edits, f edit.after ≠ f edit.before ∧ f doc = f edit.after := by
  induction h with
  | refl => exact absurd rfl hne
  | @tail edits edit h ih =>
    by_cases hsame : f edit.after = f edit.before
    · rw [hsame] at hne ⊢
      obtain ⟨earlier, hmem, hchange, hlast⟩ := ih hne
      exact ⟨earlier, List.mem_append_left _ hmem, hchange, hlast⟩
    · exact ⟨edit, by simp, hsame, rfl⟩

/-! ### Histories -/

/-- Every document that a proposal was made against leads to that of the moment, by approvals. -/
def Traced (h : History) : Prop :=
  ∀ pid base, (pid, base) ∈ h.bases →
    ∃ edits, (∀ edit ∈ edits, edit ∈ h.edits) ∧ Leads base edits h.server.doc

theorem Traced.step (htraced : Traced h) (hstep : History.step setup digit h deed = some h') :
    Traced h' := by
  rw [← Option.some.inj hstep]
  intro pid base hbase
  dsimp only at hbase ⊢
  rcases doc_of_deed setup digit h.server deed with
    ⟨hdoc, happlied⟩ | ⟨p, -, -, happlied, hlength⟩
  · rw [happlied, if_pos rfl, hdoc]
    rcases List.mem_append.mp hbase with hold | hnew
    · exact htraced pid base hold
    · obtain ⟨p, -, hp⟩ := List.mem_map.mp hnew
      obtain rfl := (Prod.mk.inj hp).2
      exact ⟨[], by simp, .refl _⟩
  · have happlied : (deed.run setup digit h.server).applied.length ≠ h.server.applied.length := by
      rw [happlied, List.length_append, List.length_singleton]
      omega
    rw [if_neg happlied]
    rw [List.drop_eq_nil_of_le (by omega), List.map_nil, List.append_nil] at hbase
    obtain ⟨edits, hmem, hleads⟩ := htraced pid base hbase
    refine ⟨edits ++ [⟨h.server.doc, (deed.run setup digit h.server).doc⟩], ?_, ?_⟩
    · intro edit hedit
      rcases List.mem_append.mp hedit with hold | hlast
      · exact List.mem_append_left _ (hmem edit hold)
      · exact List.mem_append_right _ hlast
    · exact .tail ⟨h.server.doc, (deed.run setup digit h.server).doc⟩ hleads

theorem Traced.reaches {C : History → Deed → Prop}
    (hrun : Reaches (History.step setup digit) C (.start doc) h) : Traced h := by
  apply hrun.invariant (I := Traced)
  · intro h deed h' htraced _ hstep
    exact htraced.step hstep
  · intro pid base hbase
    cases hbase

/-! ### The law -/

/-- An approval of a proposal merges it. -/
theorem Deed.Approves.isMerged (h : deed.Approves setup digit s p) :
    mergedDocument setup s.doc p.nodes = .ok (deed.run setup digit s).doc := by
  obtain ⟨hproposal, happlied⟩ := h
  rcases doc_of_deed setup digit s deed with ⟨-, hsame⟩ | ⟨q, hq, hmerged, hboth, -⟩
  · rw [hsame] at happlied
    exact absurd (congrArg List.length happlied) (by simp)
  · rw [hboth] at happlied
    have hid : q.id = p.id := by simpa using happlied
    rw [hid, hproposal] at hq
    obtain rfl := Option.some.inj (Except.ok.inj hq)
    exact hmerged

/-- **Lost edits.**  An approval keeps every edit that its author has left alone if and only if the
proposal is fresh. -/
theorem keepsEdits_iff (htraced : Traced h) (happroves : deed.Approves setup digit h.server p)
    (hbase : h.bases.lookup p.id = some base) :
    KeepsEdits h p base (deed.run setup digit h.server).doc ↔ Fresh h p base := by
  have hmerged := happroves.isMerged
  constructor
  · intro hkeeps node hnode key hkey name hleft
    by_contra hne
    obtain ⟨edits, hedits, hleads⟩ := htraced p.id base (mem_of_lookup hbase)
    -- the last approval that has changed the field since it was read
    obtain ⟨edit, hmem, hchange, hlast⟩ :=
      hleads.last_change (fun doc => valueAt doc.nodes key name) hne
    have hkept := hkeeps edit (hedits edit hmem) key name hchange hlast hleft
    rw [← hlast, valueAt_merged hmerged] at hkept
    cases hproposed : nodeOf p.nodes key with
    | none => exact nodeOf_eq_none.mp hproposed node hnode hkey
    | some new =>
      have hboth := valueAt_append_some hproposed name h.server.doc.nodes base.nodes
      exact hne (hkept.symm.trans (hboth.trans hleft))
  · intro hfresh edit hedit key name _ hplace hleft
    rw [← hplace, valueAt_merged hmerged]
    cases hproposed : nodeOf p.nodes key with
    | none => exact valueAt_append_none hproposed
    | some new =>
      obtain ⟨hmem, hkey⟩ := nodeOf_eq_some hproposed
      have hboth := valueAt_append_some hproposed name h.server.doc.nodes base.nodes
      have hsame := hfresh new hmem key hkey name hleft
      calc valueAt (h.server.doc.nodes ++ p.nodes) key name
          = valueAt (base.nodes ++ p.nodes) key name := hboth
        _ = valueAt base.nodes key name := hleft
        _ = valueAt h.server.doc.nodes key name := hsame.symm

/-- **Approvals in any order.**  Every history of approvals of fresh proposals loses no edit; and in
every history, a deed loses none if and only if what it approves is fresh. -/
theorem editLaw_fresh (setup : Setup) (digit : Char → Bool) :
    EditLaw setup digit (ApprovesFresh setup digit) ∧
      ∀ doc h, Reaches (History.step setup digit) anyAction (.start doc) h →
        ∀ deed, LosesNoEdit setup digit h deed ↔ ApprovesFresh setup digit h deed := by
  constructor
  · intro doc h hrun deed hfresh p base happroves hbase
    have htraced := Traced.reaches hrun
    exact (keepsEdits_iff htraced happroves hbase).mpr (hfresh p base happroves hbase)
  · intro doc h hrun deed
    have htraced := Traced.reaches hrun
    constructor
    · intro hloses p base happroves hbase
      exact (keepsEdits_iff htraced happroves hbase).mp (hloses p base happroves hbase)
    · intro hfresh p base happroves hbase
      exact (keepsEdits_iff htraced happroves hbase).mpr (hfresh p base happroves hbase)

/-! ### A rename that is lost -/

/-- A document with one Event. -/
def eventDocument : Document where
  lirVersion := .str "0.1"
  module := .str "shop"
  nodes := [[("kind", .str "Event"), ("id", .str "event.placed"), ("name", .str "placed")]]

/-- The Event is renamed; meanwhile, it is given a payload; and the rename is approved. -/
def renameDeeds : List Deed :=
  [.ask (proposeNode "k-1" (.dict [("kind", .str "Event"), ("id", .str "event.placed"),
    ("name", .str "ordered")])),
   .ask (proposeNode "k-2" (.dict [("kind", .str "Event"), ("id", .str "event.placed"),
    ("name", .str "placed"), ("payload", .list [.str "total"])])),
   .review (.str "task-0001") (.str "prop-0001")]

/-- The payload is approved. -/
def payloadDeed : Deed := .review (.str "task-0002") (.str "prop-0002")

def renameHistory : History :=
  (exec (History.step bareSetup Char.isDigit) (.start eventDocument) renameDeeds).get
    (by decide)

/-- The text of a field. -/
def textAt (doc : Document) (name : String) : Option String :=
  (valueAt doc.nodes (.str "event.placed") name).bind Value.str?

/-- The reviewer approves both, and the old name is back. -/
theorem not_editLaw : ¬ ∀ setup digit, EditLaw setup digit ByReviewer := by
  intro hlaw
  have hexec : exec (History.step bareSetup Char.isDigit) (.start eventDocument) renameDeeds =
      some renameHistory := (Option.some_get _).symm
  have hrun : Reaches (History.step bareSetup Char.isDigit) ByReviewer (.start eventDocument)
      renameHistory := by
    apply reaches_of_exec_all _ hexec
    intro deed hdeed h
    rcases List.mem_cons.mp hdeed with rfl | hdeed
    · show requestHandler _ ≠ _
      decide
    · rcases List.mem_cons.mp hdeed with rfl | hdeed
      · show requestHandler _ ≠ _
        decide
      · obtain rfl := List.mem_singleton.mp hdeed
        trivial
  let p := (renameHistory.server.proposals.find? fun p => p.id = "prop-0002").get (by decide)
  let base := (renameHistory.bases.lookup "prop-0002").get (by decide)
  let edit := renameHistory.edits.get ⟨0, by decide⟩
  let after := (payloadDeed.run bareSetup Char.isDigit renameHistory.server).doc
  have hid : p.id = "prop-0002" := by decide
  have hproposal : renameHistory.server.proposal (.str p.id) = .ok (some p) := by
    rw [hid]
    exact congrArg Except.ok (Option.some_get _).symm
  have happlied : (payloadDeed.run bareSetup Char.isDigit renameHistory.server).applied =
      renameHistory.server.applied ++ [p.id] := by
    rw [hid]
    decide
  have hbase : renameHistory.bases.lookup p.id = some base := by
    rw [hid]
    exact (Option.some_get _).symm
  have hkeeps := hlaw bareSetup Char.isDigit eventDocument renameHistory hrun payloadDeed trivial p
    base ⟨hproposal, happlied⟩ hbase edit (List.get_mem _ _) (.str "event.placed") "name"
  have hchanged : textAt edit.after "name" ≠ textAt edit.before "name" := by decide
  have hkept := hkeeps (fun heq => hchanged (congrArg (Option.bind · Value.str?) heq)) rfl rfl
  have hlost : textAt after "name" ≠ textAt edit.after "name" := by decide
  exact hlost (congrArg (Option.bind · Value.str?) hkept)

end Lnpl.Protocol
