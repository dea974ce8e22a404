import Mathlib.Data.List.Dedup
import Lnpl.Protocol.Equiv.Merge

/-!
# The document of a server

`Change` says once what a request can do to the document, to the proposals and to what was applied:
nothing, record a proposal, reject a pending one, or apply one and approve it (`change_of_handle`).

A server keeps its document sound, and its account of what was applied, as long as requests are
`Orderly` (`documentLaw_orderly`).  A proposal of two nodes without an id is not refused, and the
map on which the uniqueness of ids is checked has one node for both (`not_documentLaw`).
-/

namespace Lnpl.Protocol

open Lnpl.Lib Lnpl.Lib.Py

variable {setup : Setup} {s t : Server} {request params : Fields}

/-! ### Ids of proposals -/

theorem ofDigitChars_replicate (k : Nat) (chars : List Char) :
    Nat.ofDigitChars 10 (List.replicate k '0' ++ chars) 0 = Nat.ofDigitChars 10 chars 0 := by
  induction k with
  | zero => rfl
  | succ k ih => exact ih

theorem pad4_injective {n m : Nat} (h : pad4 n = pad4 m) : n = m := by
  have hchars := congrArg (fun text => Nat.ofDigitChars 10 text.toList 0) h
  unfold pad4 at hchars
  simp only [String.toList_ofList] at hchars
  rw [ofDigitChars_replicate, ofDigitChars_replicate, Nat.ofDigitChars_ten_toDigits,
    Nat.ofDigitChars_ten_toDigits] at hchars
  exact hchars

/-- Ids of one kind differ by their numbers. -/
theorem eq_of_numbered {kind : String} {i j : Nat}
    (h : kind ++ pad4 (i + 1) = kind ++ pad4 (j + 1)) : i = j := by
  have hlist := congrArg String.toList h
  rw [String.toList_append, String.toList_append] at hlist
  have hsucc := pad4_injective (String.toList_inj.mp (List.append_cancel_left hlist))
  omega

/-- `prop-%04d`. -/
def proposalId (i : Nat) : String := "prop-" ++ pad4 (i + 1)

theorem proposalId_injective {i j : Nat} (h : proposalId i = proposalId j) : i = j :=
  eq_of_numbered h

/-! ### What a request can do -/

/-- What the law is about. -/
def Server.record (s : Server) : Document × List String × List Proposal :=
  (s.doc, s.applied, s.proposals)

/-- The proposals after the state of one changed. -/
def decided (pid : String) (state : ProposalState) (proposals : List Proposal) : List Proposal :=
  proposals.map fun old => if old.id = pid then { old with state := state } else old

/-- What a request can do. -/
inductive Change (setup : Setup) (s : Server) (request : Fields) (t : Server) : Prop where
  | none (h : t.record = s.record)
  | proposed (p : Proposal) (pending : p.state = .pending)
      (id : p.id = proposalId s.proposals.length)
      (repeated : repeatedIds (p.nodes.map Value.dict) = [])
      (h : t.record = (s.doc, s.applied, s.proposals ++ [p]))
  | rejected (p : Proposal) (mem : p ∈ s.proposals) (pending : p.state = .pending)
      (h : t.record = (s.doc, s.applied, decided p.id .rejected s.proposals))
  | approved (a : Approval s request) (doc : Document)
      (merged : mergedDocument setup s.doc a.proposal.nodes = .ok doc)
      (h : t.record =
        (doc, s.applied ++ [a.proposal.id], decided a.proposal.id .approved s.proposals))

/-! ### Reports -/

theorem record_finish (task : Task) (state result : Value) :
    (s.finish task state result).1.record = s.record := by
  unfold Server.finish
  split <;> rfl

/-- What a report can do. -/
inductive ReportChange (setup : Setup) (s : Server) (params : Fields) (t : Server) : Prop where
  | none (h : t.record = s.record)
  | rejected (p : Proposal) (mem : p ∈ s.proposals) (pending : p.state = .pending)
      (h : t.record = (s.doc, s.applied, decided p.id .rejected s.proposals))
  | approved (a : ApprovingReport s params) (doc : Document)
      (merged : mergedDocument setup s.doc a.proposal.nodes = .ok doc)
      (h : t.record =
        (doc, s.applied ++ [a.proposal.id], decided a.proposal.id .approved s.proposals))

variable {p : Proposal} {doc : Document} {pid : String}

/-- A proposal that is found is one of the server's. -/
theorem proposal_ok {pid : Value} (h : s.proposal pid = .ok (some p)) : p ∈ s.proposals := by
  unfold Server.proposal at h
  obtain ⟨key, -, h⟩ := bind_eq_ok.mp h
  split at h
  · exact List.mem_of_find?_eq_some (pure_eq_ok.mp h)
  · cases pure_eq_ok.mp h

/-- A pending proposal is decided. -/
theorem decidePending_cases (setup : Setup) (s : Server) (task : Task) (payload : Fields)
    (pid : Value) (p : Proposal) (approved : Bool) :
    (s.decidePending setup task payload pid p approved).1.record = s.record ∨
    (approved = false ∧ (s.decidePending setup task payload pid p approved).1.record =
      (s.doc, s.applied, decided p.id .rejected s.proposals)) ∨
    (approved = true ∧ ∃ doc, mergedDocument setup s.doc p.nodes = .ok doc ∧
      (s.decidePending setup task payload pid p approved).1.record =
        (doc, s.applied ++ [p.id], decided p.id .approved s.proposals)) := by
  unfold Server.decidePending
  cases approved with
  | true =>
    rw [if_pos rfl]
    cases happly : (s.setTask task.start).apply setup p with
    | error e => exact .inl rfl
    | ok s' =>
      obtain ⟨doc, hdoc, hs'⟩ := bind_eq_ok.mp happly
      obtain rfl := pure_eq_ok.mp hs'
      refine .inr (.inr ⟨rfl, doc, hdoc, ?_⟩)
      exact record_finish ..
  | false =>
    rw [if_neg Bool.false_ne_true]
    exact .inr (.inl ⟨rfl, record_finish ..⟩)

variable {task : Task} {α : Type} {role : String} {value : Value} {nodes : List Node}
  {state : ProposalState} {proposals : List Proposal}

theorem reportChange_decide {payload : Value}
    (hpayload : (field params "payload").orElse (.dict []) = payload)
    (hdecides : payload.containsText "proposal_id" = .ok true)
    (htask : s.task (field params "task_id") = .ok (some task)) :
    ReportChange setup s params (s.decide setup task payload).1 := by
  unfold Server.decide
  dsimp only
  split
  · next payload =>
    split
    · exact .none rfl
    · exact .none rfl
    · next p hp =>
      split_ifs with hrole hdecision hstate
      · exact .none rfl
      · exact .none rfl
      · exact .none rfl
      · have hpending : p.state = .pending := by simpa using hstate
        obtain hnone | ⟨-, hrejected⟩ | ⟨happroved, doc, hdoc, hrecord⟩ :=
          decidePending_cases setup s task payload (field payload "proposal_id") p
            ((field payload "decision").eq (.str "approved"))
        · exact .none hnone
        · exact .rejected p (proposal_ok hp) hpending hrejected
        · let a : ApprovingReport s params :=
            { payload := payload
              task := task
              proposal := p
              isPayload := hpayload
              decides := by simpa [Value.containsText] using hdecides
              isTask := htask
              isProposal := hp
              approver := by simpa using hrole
              approved := happroved
              pending := hpending }
          exact .approved a doc hdoc hrecord
  · exact .none rfl

theorem reportChange_of_agentReport :
    ReportChange setup s params (s.agentReport setup params).1 := by
  unfold Server.agentReport
  dsimp only
  split
  · exact .none rfl
  · exact .none rfl
  · next task htask =>
    split
    · exact .none rfl
    · next hdecides => exact reportChange_decide rfl hdecides htask
    · exact .none (record_finish ..)

/-! ### Proposals -/

/-- What follows a check that raised nothing. -/
theorem of_check_ok {c : Prop} [Decidable c] {message : String} {f : PUnit → Except Raised α}
    {a : α} (h : (if c then irInvalid message >>= f else f ⟨⟩) = .ok a) : ¬c ∧ f ⟨⟩ = .ok a := by
  split_ifs at h with hc
  · cases h
  · exact ⟨hc, h⟩

/-- What a dispatch that succeeds adds. -/
theorem agentDispatch_ok (h : s.agentDispatch setup params = .ok (t, task)) :
    t = { s with tasks := s.tasks ++ [task] } ∧ task.id = "task-" ++ pad4 (s.tasks.length + 1) ∧
      task.state = .submitted ∧ task.history = [.submitted] := by
  unfold Server.agentDispatch at h
  obtain ⟨role, -, h⟩ := bind_eq_ok.mp h
  split at h
  · cases h
  · obtain ⟨-, h⟩ := of_check_ok h
    split at h
    · cases h
    · obtain ⟨rfl, rfl⟩ := Prod.mk.inj (pure_eq_ok.mp h)
      exact ⟨rfl, rfl, rfl, rfl⟩

theorem liftM_eq_ok {x : Except Error α} {a : α} :
    (liftM x : Except Raised α) = .ok a ↔ x = .ok a := by
  cases x with
  | ok b =>
    constructor <;> intro h
    · exact congrArg _ (Except.ok.inj h)
    · exact congrArg _ (Except.ok.inj h)
  | error e => exact Iff.intro nofun nofun

/-- A fragment that names no id more than once. -/
theorem repeatedIds_of_checkRepeated {nodes : List Value} (h : checkRepeated nodes = .ok ()) :
    repeatedIds nodes = [] := by
  unfold checkRepeated at h
  obtain ⟨keys, hkeys, h⟩ := bind_eq_ok.mp h
  obtain ⟨sorted, hsorted, h⟩ := bind_eq_ok.mp h
  split_ifs at h with hnone
  · obtain ⟨ids, -, h⟩ := bind_eq_ok.mp h
    cases h
  · have hsorted : sortKeys keys.dedup = .ok [] := by
      rw [not_not] at hnone
      rw [← hnone]
      exact liftM_eq_ok.mp hsorted
    have hdedup : keys.dedup = [] := (perm_of_sortKeys hsorted).nil_eq.symm
    have hall := mapM_eq_ok.mp hkeys
    rw [(List.dedup_eq_nil keys).mp hdedup] at hall
    cases hids : repeatedIds nodes with
    | nil => rfl
    | cons id ids =>
      rw [hids] at hall
      cases hall

/-- A node that is not refused is a dict. -/
theorem eq_of_checkRights {allowed : List String} {existing proposed : Nodes}
    {attachMap : List (String × List String)} {node : Node}
    (h : checkRights setup role allowed existing proposed attachMap value = .ok node) :
    value = .dict node := by
  unfold checkRights at h
  obtain ⟨kind, hkind, h⟩ := bind_eq_ok.mp h
  cases value with
  | dict fields =>
    congr 1
    obtain ⟨isAllowed, -, h⟩ := bind_eq_ok.mp h
    dsimp only at h
    split_ifs at h
    · exact pure_eq_ok.mp h
    · cases h
    · obtain ⟨key, -, h⟩ := bind_eq_ok.mp h
      obtain ⟨isEdit, -, h⟩ := bind_eq_ok.mp h
      split_ifs at h
      · obtain ⟨origin, -, h⟩ := bind_eq_ok.mp h
        split at h
        · split_ifs at h
          · exact pure_eq_ok.mp h
          · cases h
        · cases h
      · cases h
  | none | bool | int | float | str | list => cases hkind

/-- The nodes of a proposal that is recorded. -/
theorem repeatedIds_of_checkProposal {intent : Value}
    (h : checkProposal setup doc params = .ok (role, nodes, intent)) :
    repeatedIds (nodes.map Value.dict) = [] := by
  unfold checkProposal at h
  obtain ⟨known, -, h⟩ := bind_eq_ok.mp h
  split at h
  · cases h
  · obtain ⟨fragment, -, h⟩ := bind_eq_ok.mp h
    obtain ⟨_, -, h⟩ := bind_eq_ok.mp h
    obtain ⟨values, -, h⟩ := bind_eq_ok.mp h
    obtain ⟨_, hrepeated, h⟩ := bind_eq_ok.mp h
    obtain ⟨attachMap, -, h⟩ := bind_eq_ok.mp h
    obtain ⟨_, -, h⟩ := bind_eq_ok.mp h
    obtain ⟨existing, -, h⟩ := bind_eq_ok.mp h
    obtain ⟨proposed, -, h⟩ := bind_eq_ok.mp h
    obtain ⟨_, -, h⟩ := bind_eq_ok.mp h
    obtain ⟨nodes', hnodes, h⟩ := bind_eq_ok.mp h
    obtain ⟨-, hnodes', -⟩ := by simpa using pure_eq_ok.mp h
    have hall := (mapM_eq_ok.mp hnodes).imp fun value node hnode => eq_of_checkRights hnode
    rw [List.forall₂_map_right_iff.symm, List.forall₂_eq_eq_eq] at hall
    rw [← hnodes', ← hall]
    exact repeatedIds_of_checkRepeated hrepeated

theorem change_of_irPropose (h : s.irPropose setup params = .ok (t, value)) :
    Change setup s request t := by
  unfold Server.irPropose at h
  obtain ⟨⟨role, nodes, intent⟩, hchecked, h⟩ := bind_eq_ok.mp h
  obtain ⟨⟨s', review⟩, hdispatch, h⟩ := bind_eq_ok.mp h
  obtain ⟨rfl, -⟩ := Prod.mk.inj (pure_eq_ok.mp h)
  obtain ⟨rfl, -⟩ := agentDispatch_ok hdispatch
  let p : Proposal :=
    { id := proposalId s.proposals.length
      role := role
      state := .pending
      nodes := nodes
      intent := intent
      reviewTaskId := review.id }
  exact .proposed p rfl rfl (repeatedIds_of_checkProposal hchecked) rfl

/-! ### Requests -/

/-- What a handler can do; only that of `agent.report` decides. -/
theorem change_of_run {handler : Handler}
    (hreport : handler = .agentReport → ∀ u, ReportChange setup s params u →
      Change setup s request u) :
    Change setup s request (s.run setup handler params).1 := by
  unfold Server.run
  cases handler with
  | agentCard | irGet | kbRoute | kbLoad | kbVerify => exact .none rfl
  | agentReport => exact hreport rfl _ reportChange_of_agentReport
  | agentDispatch =>
    dsimp only
    split
    · next h =>
      obtain ⟨⟨s', task⟩, hdispatch, heq⟩ := map_eq_ok.mp h
      obtain ⟨rfl, -⟩ := Prod.mk.inj heq
      obtain ⟨rfl, -⟩ := agentDispatch_ok hdispatch
      exact .none rfl
    · exact .none rfl
  | irPropose =>
    dsimp only
    split
    · next h => exact change_of_irPropose h
    · exact .none rfl

/-- An idempotent request changes nothing, or runs its handler, and may store what that answers. -/
theorem idempotent_run (setup : Setup) (s : Server) (method : String) (handler : Handler)
    (params : Fields) : (s.idempotent setup method handler params).1 = s ∨
      ∃ idem, (s.idempotent setup method handler params).1 =
        { (s.run setup handler params).1 with idem := idem } := by
  unfold Server.idempotent
  dsimp only
  split_ifs
  · exact .inl rfl
  · split
    · exact .inl rfl
    · split
      · split_ifs
        · exact .inl rfl
        · exact .inl rfl
      · right
        cases hrun : s.run setup handler params with | mk t outcome
        cases outcome with
        | error e => exact ⟨t.idem, rfl⟩
        | ok result => exact ⟨_, rfl⟩

/-- Only the record of the server counts. -/
theorem Change.congr {u : Server} (h : Change setup s request t) (hu : u.record = t.record) :
    Change setup s request u := by
  cases h with
  | none h => exact .none (hu.trans h)
  | proposed p pending id repeated h => exact .proposed p pending id repeated (hu.trans h)
  | rejected p mem pending h => exact .rejected p mem pending (hu.trans h)
  | approved a doc merged h => exact .approved a doc merged (hu.trans h)

/-- **What a request can do.** -/
theorem change_of_handle : Change setup s request (s.handle setup request).1 := by
  unfold Server.handle
  dsimp only
  split_ifs with hversion hmethod
  · exact .none rfl
  · exact .none rfl
  · split
    · next name hname =>
      split
      · exact .none rfl
      · next handler hhandler =>
        dsimp only
        unfold handleParams
        split
        · next params hparams =>
          have hrun : Change setup s request (s.run setup handler params).1 := by
            apply change_of_run
            rintro rfl u hu
            cases hu with
            | none h => exact .none h
            | rejected p mem pending h => exact .rejected p mem pending h
            | approved a doc merged h =>
              let approval : Approval s request :=
                { method := name
                  params := params
                  version := by simpa using hversion
                  isMethod := hname
                  handler := hhandler
                  isParams := hparams
                  report := a }
              exact .approved approval doc merged h
          split_ifs
          · obtain hnone | ⟨idem, hsame⟩ := idempotent_run setup s name handler params
            · rw [hnone]
              exact .none rfl
            · rw [hsame]
              exact hrun.congr rfl
          · exact hrun
        · exact .none rfl
    · exact .none rfl

/-! ### The invariant -/

/-- The document and the account of what was applied are consistent; the proposals are numbered, and
no fragment of one repeats an id. -/
structure Inv (setup : Setup) (s : Server) : Prop extends Consistent setup s where
  ids : s.proposals.map Proposal.id = (List.range s.proposals.length).map proposalId
  distinct : ∀ p ∈ s.proposals, repeatedIds (p.nodes.map Value.dict) = []

/-- Two proposals of one id are one. -/
theorem Inv.eq_of_id (h : Inv setup s) {q : Proposal} (hp : p ∈ s.proposals) (hq : q ∈ s.proposals)
    (hid : p.id = q.id) : p = q := by
  have hnodup : (s.proposals.map Proposal.id).Nodup := by
    rw [h.ids]
    exact List.nodup_range.map fun i j => proposalId_injective
  exact List.inj_on_of_nodup_map hnodup hp hq hid

theorem mem_decided :
    p ∈ decided pid state proposals ↔
      ∃ old ∈ proposals, (if old.id = pid then { old with state := state } else old) = p :=
  List.mem_map

/-- A proposal whose state changes keeps its id and its nodes. -/
theorem eq_of_decided {old : Proposal}
    (h : (if old.id = pid then { old with state := state } else old) = p) :
    p.id = old.id ∧ p.nodes = old.nodes := by
  split_ifs at h <;> rw [← h] <;> exact ⟨rfl, rfl⟩

theorem map_id_decided (pid : String) (state : ProposalState) (proposals : List Proposal) :
    (decided pid state proposals).map Proposal.id = proposals.map Proposal.id := by
  unfold decided
  rw [List.map_map]
  apply List.map_congr_left
  intro old _
  show Proposal.id (if old.id = pid then { old with state := state } else old) = old.id
  split_ifs <;> rfl

theorem distinct_decided (pid : String) (state : ProposalState)
    (h : ∀ p ∈ proposals, repeatedIds (p.nodes.map Value.dict) = []) :
    ∀ p ∈ decided pid state proposals, repeatedIds (p.nodes.map Value.dict) = [] := by
  intro p hp
  obtain ⟨old, hold, heq⟩ := mem_decided.mp hp
  rw [(eq_of_decided heq).2]
  exact h old hold

/-- What a rejection leaves approved. -/
theorem Inv.approved_rejected (h : Inv setup s) (hp : p ∈ s.proposals)
    (hpending : p.state = .pending) (pid : String) :
    (∃ q ∈ decided p.id .rejected s.proposals, q.id = pid ∧ q.state = .approved) ↔
      ∃ q ∈ s.proposals, q.id = pid ∧ q.state = .approved := by
  constructor
  · rintro ⟨q, hq, hid, hstate⟩
    obtain ⟨old, hold, heq⟩ := mem_decided.mp hq
    split_ifs at heq with hdecided
    · rw [← heq] at hstate
      cases hstate
    · rw [← heq] at hid hstate
      exact ⟨old, hold, hid, hstate⟩
  · rintro ⟨q, hq, hid, hstate⟩
    refine ⟨q, mem_decided.mpr ⟨q, hq, if_neg ?_⟩, hid, hstate⟩
    intro heq
    rw [h.eq_of_id hq hp heq, hpending] at hstate
    cases hstate

/-- What an approval leaves approved, and what it adds. -/
theorem Inv.approved_approved (hp : p ∈ s.proposals) (pid : String) :
    (∃ q ∈ decided p.id .approved s.proposals, q.id = pid ∧ q.state = .approved) ↔
      (∃ q ∈ s.proposals, q.id = pid ∧ q.state = .approved) ∨ pid = p.id := by
  constructor
  · rintro ⟨q, hq, hid, hstate⟩
    obtain ⟨old, hold, heq⟩ := mem_decided.mp hq
    split_ifs at heq with hdecided
    · right
      rw [← hid, ← heq]
      exact hdecided
    · left
      rw [← heq] at hid hstate
      exact ⟨old, hold, hid, hstate⟩
  · rintro (⟨q, hq, hid, hstate⟩ | rfl)
    · by_cases hdecided : q.id = p.id
      · exact ⟨_, mem_decided.mpr ⟨q, hq, if_pos hdecided⟩, hid, rfl⟩
      · exact ⟨q, mem_decided.mpr ⟨q, hq, if_neg hdecided⟩, hid, hstate⟩
    · exact ⟨_, mem_decided.mpr ⟨p, hp, if_pos rfl⟩, rfl, rfl⟩

/-- The document that an applied proposal leaves. -/
theorem sound_of_mergedDocument {doc' : Document} (hdoc : UniqueIds doc.nodes)
    (hrepeated : repeatedIds (nodes.map Value.dict) = []) (hnull : nullIds nodes ≤ 1)
    (h : mergedDocument setup doc nodes = .ok doc') :
    SoundDocument setup.quote doc' ∧ ChangesExactly nodes doc doc' := by
  unfold mergedDocument at h
  obtain ⟨merged, hmerged, h⟩ := bind_eq_ok.mp h
  obtain ⟨mergedIds, -, h⟩ := bind_eq_ok.mp h
  obtain ⟨_, -, h⟩ := bind_eq_ok.mp h
  obtain ⟨map, hmap, h⟩ := bind_eq_ok.mp h
  obtain ⟨fault, hfault, h⟩ := bind_eq_ok.mp h
  obtain ⟨hunique, hproposed, hothers⟩ :=
    mergeNodes_ok hdoc hrepeated hnull (liftM_eq_ok.mp hmerged)
  have hdoc' : fault = none ∧ doc' = { doc with nodes := merged } := by
    split at h
    · cases h
    · split at h
      · exact ⟨rfl, (pure_eq_ok.mp h).symm⟩
      · dsimp only at h
        split at h
        · exact ⟨rfl, (pure_eq_ok.mp h).symm⟩
        · cases h
  obtain ⟨rfl, rfl⟩ := hdoc'
  constructor
  · exact ⟨hunique, map, liftM_eq_ok.mp hmap, liftM_eq_ok.mp hfault⟩
  · exact
      { lirVersion := rfl
        module := rfl
        rest := rfl
        proposed := hproposed
        others := hothers }

/-- The proposal of an approval is one of the server's. -/
theorem Approval.mem (a : Approval s request) : a.proposal ∈ s.proposals :=
  proposal_ok a.report.isProposal

theorem Inv.start (h : SoundDocument setup.quote doc) :
    Inv setup { doc := doc } where
  doc := h
  once := List.nodup_nil
  applied pid := by simp
  ids := rfl
  distinct p hp := by cases hp

/-- **An orderly request keeps the invariant.** -/
theorem Inv.step (h : Inv setup s) (horderly : Orderly setup s request)
    (hchange : Change setup s request t) : Inv setup t := by
  cases hchange with
  | none heq =>
    obtain ⟨hdoc, happlied, hproposals⟩ := by simpa [Server.record] using heq
    constructor
    · exact
        { doc := by rw [hdoc]; exact h.doc
          once := by rw [happlied]; exact h.once
          applied := by rw [happlied, hproposals]; exact h.applied }
    · rw [hproposals]
      exact h.ids
    · rw [hproposals]
      exact h.distinct
  | proposed p pending id repeated heq =>
    obtain ⟨hdoc, happlied, hproposals⟩ := by simpa [Server.record] using heq
    constructor
    · refine
        { doc := by rw [hdoc]; exact h.doc
          once := by rw [happlied]; exact h.once
          applied := fun pid => ?_ }
      rw [happlied, hproposals, h.applied]
      simp [List.mem_append, or_and_right, exists_or, pending]
    · rw [hproposals, List.map_append, h.ids, List.length_append, List.length_singleton,
        List.range_succ, List.map_append]
      simp [id]
    · intro q hq
      rw [hproposals] at hq
      rcases List.mem_append.mp hq with hq | hq
      · exact h.distinct q hq
      · rw [List.mem_singleton.mp hq]
        exact repeated
  | rejected p mem pending heq =>
    obtain ⟨hdoc, happlied, hproposals⟩ := by simpa [Server.record] using heq
    constructor
    · refine
        { doc := by rw [hdoc]; exact h.doc
          once := by rw [happlied]; exact h.once
          applied := fun pid => ?_ }
      rw [happlied, hproposals, h.approved_rejected mem pending, h.applied]
    · rw [hproposals, map_id_decided, h.ids]
      simp [decided]
    · rw [hproposals]
      exact distinct_decided _ _ h.distinct
  | approved a doc merged heq =>
    obtain ⟨hdoc, happlied, hproposals⟩ := by simpa [Server.record] using heq
    have hnull := (horderly a ⟨doc, merged⟩).2
    have hfresh : a.proposal.id ∉ s.applied := by
      intro hmem
      obtain ⟨q, hq, hid, hstate⟩ := (h.applied _).mp hmem
      rw [h.eq_of_id hq a.mem hid, a.report.pending] at hstate
      cases hstate
    constructor
    · refine
        { doc := ?_
          once := ?_
          applied := fun pid => ?_ }
      · rw [hdoc]
        exact (sound_of_mergedDocument h.doc.1 (h.distinct _ a.mem) hnull merged).1
      · rw [happlied]
        exact h.once.append (List.nodup_singleton _) (by simpa using hfresh)
      · rw [happlied, hproposals, Inv.approved_approved a.mem, List.mem_append, h.applied,
          List.mem_singleton]
    · rw [hproposals, map_id_decided, h.ids]
      simp [decided]
    · rw [hproposals]
      exact distinct_decided _ _ h.distinct

/-- The document changes only as an approved proposal says. -/
theorem Inv.changesByApproval (h : Inv setup s) (horderly : Orderly setup s request)
    (hchange : Change setup s request t) : ChangesByApproval s request t := by
  cases hchange with
  | none heq | proposed _ _ _ _ heq | rejected _ _ _ heq => exact .inl (congrArg Prod.fst heq)
  | approved a doc merged heq =>
    obtain ⟨hmethod, hnull⟩ := horderly a ⟨doc, merged⟩
    have hdoc : t.doc = doc := congrArg Prod.fst heq
    refine .inr ⟨a, hmethod, ?_⟩
    rw [hdoc]
    exact (sound_of_mergedDocument h.doc.1 (h.distinct _ a.mem) hnull merged).2

/-- A rejected proposal stays rejected. -/
theorem Inv.rejected_stays (h : Inv setup s) (hchange : Change setup s request t)
    (hp : ∃ p ∈ s.proposals, p.id = pid ∧ p.state = .rejected) :
    ∃ p ∈ t.proposals, p.id = pid ∧ p.state = .rejected := by
  obtain ⟨p, hp, hid, hstate⟩ := hp
  -- the decision is about a pending proposal, which is another one
  have hother {q : Proposal} {state : ProposalState} (hq : q ∈ s.proposals)
      (hpending : q.state = .pending) : p ∈ decided q.id state s.proposals := by
    refine mem_decided.mpr ⟨p, hp, if_neg ?_⟩
    intro heq
    rw [h.eq_of_id hp hq heq, hpending] at hstate
    cases hstate
  cases hchange with
  | none heq =>
    have hproposals : t.proposals = s.proposals := congrArg (fun r => r.2.2) heq
    exact ⟨p, by rw [hproposals]; exact hp, hid, hstate⟩
  | proposed q _ _ _ heq =>
    have hproposals : t.proposals = s.proposals ++ [q] := congrArg (fun r => r.2.2) heq
    exact ⟨p, by rw [hproposals]; exact List.mem_append_left _ hp, hid, hstate⟩
  | rejected q mem pending heq =>
    have hproposals : t.proposals = decided q.id .rejected s.proposals :=
      congrArg (fun r => r.2.2) heq
    exact ⟨p, by rw [hproposals]; exact hother mem pending, hid, hstate⟩
  | approved a doc _ heq =>
    have hproposals : t.proposals = decided a.proposal.id .approved s.proposals :=
      congrArg (fun r => r.2.2) heq
    exact ⟨p, by rw [hproposals]; exact hother a.mem a.report.pending, hid, hstate⟩

/-! ### The law -/

theorem Inv.reaches (h : Inv setup s) (hrun : Reaches (Protocol.step setup) (Orderly setup) s t) :
    Inv setup t := by
  apply hrun.invariant _ h
  intro s request t hs horderly heq
  rw [← Option.some.inj heq]
  exact hs.step horderly change_of_handle

/-- **The document of a server.**  After every sequence of orderly requests, the document is sound,
the proposals that were applied, each once, are the approved ones, the next request changes the
document only as an approved proposal says, and no rejected proposal is ever applied. -/
theorem documentLaw_orderly (setup : Setup) : DocumentLaw setup (Orderly setup) := by
  intro doc s hdoc hrun
  have h := (Inv.start hdoc).reaches hrun
  refine ⟨h.toConsistent, ?_, ?_⟩
  · intro request horderly
    exact h.changesByApproval horderly change_of_handle
  · intro p hp hrejected t hlater
    have hboth : Inv setup t ∧ ∃ q ∈ t.proposals, q.id = p.id ∧ q.state = .rejected := by
      apply hlater.invariant (I := fun t => Inv setup t ∧
        ∃ q ∈ t.proposals, q.id = p.id ∧ q.state = .rejected) _ ⟨h, p, hp, rfl, hrejected⟩
      rintro s request t ⟨hs, hq⟩ horderly heq
      rw [← Option.some.inj heq]
      exact ⟨hs.step horderly change_of_handle, hs.rejected_stays change_of_handle hq⟩
    obtain ⟨ht, q, hq, hid, hstate⟩ := hboth
    intro happlied
    obtain ⟨q', hq', hid', hstate'⟩ := (ht.applied _).mp happlied
    rw [ht.eq_of_id hq' hq (hid'.trans hid.symm), hstate] at hstate'
    cases hstate'

/-! ### The log of a server -/

/-- The document is what the fragments of the applied proposals, in the order in which they were
applied, make of the first one. -/
def Replays (setup : Setup) (first : Document) (s : Server) : Prop :=
  ∃ log : List (String × List Node), log.map Prod.fst = s.applied ∧
    log ⊆ s.proposals.map (fun p => (p.id, p.nodes)) ∧
    log.foldlM (fun doc entry => mergedDocument setup doc entry.2) first = .ok s.doc

theorem Replays.step {first : Document} (h : Replays setup first s)
    (hchange : Change setup s request t) : Replays setup first t := by
  obtain ⟨log, hids, hlog, hdoc⟩ := h
  -- a decision leaves the fragments as they were proposed
  have hdecided (pid : String) (state : ProposalState) :
      (decided pid state s.proposals).map (fun p => (p.id, p.nodes)) =
        s.proposals.map fun p => (p.id, p.nodes) := by
    rw [decided, List.map_map]
    apply List.map_congr_left
    intro p _
    rw [Function.comp_apply]
    split_ifs <;> rfl
  cases hchange with
  | none heq =>
    obtain ⟨hdoc', happlied, hproposals⟩ := by simpa [Server.record] using heq
    exact ⟨log, by rw [happlied, hids], by rwa [hproposals], by rwa [hdoc']⟩
  | proposed p _ _ _ heq =>
    obtain ⟨hdoc', happlied, hproposals⟩ := by simpa [Server.record] using heq
    refine ⟨log, by rw [happlied, hids], ?_, by rwa [hdoc']⟩
    rw [hproposals, List.map_append]
    exact List.subset_append_of_subset_left _ hlog
  | rejected p _ _ heq =>
    obtain ⟨hdoc', happlied, hproposals⟩ := by simpa [Server.record] using heq
    exact ⟨log, by rw [happlied, hids], by rwa [hproposals, hdecided], by rwa [hdoc']⟩
  | approved a doc merged heq =>
    obtain ⟨hdoc', happlied, hproposals⟩ := by simpa [Server.record] using heq
    refine ⟨log ++ [(a.proposal.id, a.proposal.nodes)], ?_, ?_, ?_⟩
    · rw [happlied, List.map_append, hids]
      rfl
    · rw [hproposals, hdecided]
      exact List.append_subset.mpr
        ⟨hlog, List.cons_subset.mpr ⟨List.mem_map_of_mem a.mem, List.nil_subset _⟩⟩
    · rw [List.foldlM_append, hdoc, hdoc']
      simp only [List.foldlM_cons, List.foldlM_nil, bind_pure]
      exact merged

/-- **The log.**  After any requests whatsoever, the document is the first one with the applied
proposals, and nothing else, replayed on it. -/
theorem document_replays (setup : Setup) (first : Document) (requests : List Fields) :
    Replays setup first
      (requests.foldl (fun s request => (s.handle setup request).1) { doc := first }) := by
  have hstart : Replays setup first { doc := first } := ⟨[], rfl, List.nil_subset _, rfl⟩
  generalize ({ doc := first } : Server) = s at hstart ⊢
  induction requests generalizing s with
  | nil => exact hstart
  | cons request requests ih => exact ih _ (hstart.step change_of_handle)

/-! ### Two nodes without an id -/

/-- A server without a validator, and a knowledge base without documents. -/
def bareSetup : Setup where
  route _ := .ok (.list [])
  load _ := .error "no such document"
  verify _ _ := .ok false
  validate := none
  quote text := "'" ++ text ++ "'"

/-- A document of no nodes. -/
def emptyDocument : Document where
  lirVersion := .str "0.1"
  module := .str "shop"
  nodes := []

/-- A JSON-RPC request. -/
def rpc (method : String) (params : Fields) : Fields :=
  [("jsonrpc", .str "2.0"), ("id", .int 1), ("method", .str method), ("params", .dict params)]

/-- A declaration whose id is null. -/
def nullNode (kind : String) : Value := .dict [("id", .none), ("kind", .str kind)]

/-- An Architect proposes two declarations whose ids are null, and a Reviewer approves. -/
def nullIdRequests : List Fields :=
  [rpc "ir.propose" [("idempotency_key", .str "k-1"), ("role", .str "Architect"),
    ("kb_pins", .list []),
    ("ir_fragment", .dict [("nodes", .list [nullNode "Entity", nullNode "Event"])])],
   rpc "agent.report" [("task_id", .str "task-0001"),
    ("payload", .dict [("proposal_id", .str "prop-0001"), ("decision", .str "approved")])]]

theorem soundDocument_empty : SoundDocument bareSetup.quote emptyDocument :=
  ⟨⟨[], rfl, List.nodup_nil⟩, [], rfl, by decide +kernel⟩

/-- The document then has two nodes of one id. -/
theorem not_documentLaw : ¬ ∀ setup, DocumentLaw setup anyAction := by
  intro hlaw
  let start : Server := { doc := emptyDocument }
  let s := (exec (step bareSetup) start nullIdRequests).get (by decide +kernel)
  have hs : exec (step bareSetup) start nullIdRequests = some s := (Option.some_get _).symm
  obtain ⟨keys, hkeys, hnodup⟩ :=
    (hlaw bareSetup emptyDocument s soundDocument_empty (reaches_of_exec hs)).1.doc.1
  have hboth : s.doc.nodes.mapM idKey = .ok [.none, .none] := by decide +kernel
  rw [hboth] at hkeys
  rw [← Except.ok.inj hkeys] at hnodup
  exact absurd hnodup (by decide)

end Lnpl.Protocol
