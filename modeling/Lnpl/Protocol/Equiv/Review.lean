import Lnpl.Protocol.Equiv.Decisions
import Lnpl.Protocol.Equiv.Replacement

/-!
# Assessments

`Passed` says what an assessment that approves has checked.
-/

namespace Lnpl.Protocol

open Lnpl.Lib Lnpl.Lib.Py

variable {setup : Setup} {digit : Char → Bool} {s : Server} {doc : Document} {p : Proposal}

/-! ### What raises nothing -/

variable {α : Type} {nodes : List Node}

theorem raising_eq_ok {x : Except Raised α} {a : α} :
    (liftM x : Except Ruling α) = .ok a ↔ x = .ok a := by
  cases x with
  | ok b =>
    constructor <;> intro h
    · exact congrArg _ (Except.ok.inj h)
    · exact congrArg _ (Except.ok.inj h)
  | error e => exact Iff.intro nofun nofun

theorem raisingError_eq_ok {x : Except Error α} {a : α} :
    (liftM x : Except Ruling α) = .ok a ↔ x = .ok a :=
  (raising_eq_ok (x := liftM x)).trans liftM_eq_ok

/-- What follows a check that rejected nothing. -/
theorem of_not_reject {c : Prop} [Decidable c] {why : String} {f : PUnit → Except Ruling α} {a : α}
    (h : (if c then reject why >>= f else f ⟨⟩) = .ok a) : ¬c ∧ f ⟨⟩ = .ok a := by
  split_ifs at h with hc
  · cases h
  · exact ⟨hc, h⟩

/-! ### The checks that are passed -/

/-- The ids of the proposed nodes that the document lacks. -/
def authoredIds (existing : Nodes) (ids : List Key) : List Key :=
  ids.filter fun key => (existing.lookup key).isNone

/-- What an assessment that approves has read, and checked. -/
structure Passed (setup : Setup) (digit : Char → Bool) (doc : Document) (p : Proposal)
    (existing merged declaredKinds : Nodes) (attachMap : List (String × List String))
    (moveMap : List ((String × String) × String)) (ids : List Key) (drops : Drops) : Prop where
  isExisting : byId doc.nodes = .ok existing
  isMoves : moves setup.quote (p.intent.orElse (.dict [])) = .ok moveMap
  isIds : p.nodes.mapM idKey = .ok ids
  attached : ∀ attachment ∈ attachMap,
    assessAttachments setup existing p.nodes (authoredIds existing ids) attachment = .ok ()
  isDeclaredKinds : byId p.nodes = .ok declaredKinds
  rights : ∀ node ∈ p.nodes,
    withinRights (rightsOf p.role) existing declaredKinds attachMap node = .ok true
  sources : ∀ node ∈ p.nodes, badSource setup digit existing node = .ok none
  isDrops : p.nodes.foldlM (assessReplaced setup existing moveMap) [] = .ok drops
  isMerged : p.nodes.foldlM (fun merged node => return setNode (← idKey node) node merged) existing =
    (.ok merged : Except Error Nodes)
  moved : ∀ move ∈ moveMap, assessMove existing merged drops move = .ok ()

theorem of_assessRights {role : String} {allowed : List String} {existing declaredKinds : Nodes}
    {attachMap : List (String × List String)}
    (h : assessRights role allowed existing declaredKinds attachMap nodes = .ok ()) :
    ∀ node ∈ nodes, withinRights allowed existing declaredKinds attachMap node = .ok true := by
  obtain ⟨outside, houtside, h⟩ := bind_eq_ok.mp h
  obtain ⟨hall, hfilter⟩ := filterM_eq_ok (raising_eq_ok.mp houtside)
  split_ifs at h with hnone
  · intro node hnode
    obtain ⟨b, hb⟩ := hall node hnode
    obtain ⟨within, hwithin, hb⟩ := bind_eq_ok.mp hb
    have hb' := pure_eq_ok.mp hb
    rw [hwithin]
    cases within with
    | true => rfl
    | false =>
      have hmem : node ∈ outside := by
        rw [hfilter, List.mem_filter]
        refine ⟨hnode, ?_⟩
        show holds (withinRights allowed existing declaredKinds attachMap node >>= fun b =>
          pure !b) = true
        rw [hwithin]
        rfl
      rw [List.isEmpty_iff.mp hnone] at hmem
      cases hmem
  · obtain ⟨kinds, -, h⟩ := bind_eq_ok.mp h
    obtain ⟨kinds', -, h⟩ := bind_eq_ok.mp h
    obtain ⟨text, -, h⟩ := bind_eq_ok.mp h
    cases h

theorem of_assessSources {existing : Nodes}
    (h : assessSources setup digit existing nodes = .ok ()) :
    ∀ node ∈ nodes, badSource setup digit existing node = .ok none := by
  obtain ⟨bad, hbad, h⟩ := bind_eq_ok.mp h
  split_ifs at h with hnone
  · cases h
  · have hnil : bad = [] := by simpa using hnone
    rw [hnil] at hbad
    exact of_filterMapM_nil (raising_eq_ok.mp hbad)

/-- **What an assessment checks.** -/
theorem passed_of_assessProposal (h : assessProposal setup digit doc p = .ok ()) :
    ∃ existing merged declaredKinds attachMap moveMap ids drops,
      Passed setup digit doc p existing merged declaredKinds attachMap moveMap ids drops := by
  unfold assessProposal at h
  dsimp only at h
  obtain ⟨existing, hexisting, h⟩ := bind_eq_ok.mp h
  obtain ⟨attachMap, -, h⟩ := bind_eq_ok.mp h
  obtain ⟨moveMap, hmoves, h⟩ := bind_eq_ok.mp h
  obtain ⟨ids, hids, h⟩ := bind_eq_ok.mp h
  obtain ⟨_, hattached, h⟩ := bind_eq_ok.mp h
  obtain ⟨declaredKinds, hkinds, h⟩ := bind_eq_ok.mp h
  obtain ⟨_, hrights, h⟩ := bind_eq_ok.mp h
  obtain ⟨_, hsources, h⟩ := bind_eq_ok.mp h
  obtain ⟨drops, hdrops, h⟩ := bind_eq_ok.mp h
  obtain ⟨merged, hmerged, h⟩ := bind_eq_ok.mp h
  obtain ⟨_, hmoved, -⟩ := bind_eq_ok.mp h
  refine ⟨existing, merged, declaredKinds, attachMap, moveMap, ids, drops, ?_⟩
  exact
    { isExisting := raisingError_eq_ok.mp hexisting
      isMoves := raising_eq_ok.mp hmoves
      isIds := raisingError_eq_ok.mp hids
      attached := fun attachment hmem =>
        of_forM hattached attachment ((List.mem_insertionSort _).mpr hmem)
      isDeclaredKinds := raisingError_eq_ok.mp hkinds
      rights := of_assessRights hrights
      sources := of_assessSources hsources
      isDrops := hdrops
      isMerged := raisingError_eq_ok.mp hmerged
      moved := fun move hmem => of_forM hmoved move ((List.mem_insertionSort _).mpr hmem) }

/-! ### What is given up -/

section

variable {existing : Nodes} {moveMap : List ((String × String) × String)} {node old : Node}
  {key : Key} {drops drops' : Drops}

variable {name : String}

theorem assessDrop_ok {ref : String} (hkey : idKey node = .ok key)
    (h : assessDrop setup moveMap node name drops ref = .ok drops') :
    (moveOf moveMap (field node "id") ref).isSome ∧ drops' = ((key, ref), name) :: drops := by
  obtain ⟨key', hkey', h⟩ := bind_eq_ok.mp h
  obtain rfl := Except.ok.inj (hkey.symm.trans (raisingError_eq_ok.mp hkey'))
  obtain ⟨hmove, h⟩ := of_not_reject h
  refine ⟨?_, (pure_eq_ok.mp h).symm⟩
  rw [Option.isSome_iff_ne_none]
  intro hnone
  rw [hnone] at hmove
  exact hmove rfl

/-- The references that a node gives up in one field. -/
theorem assessDrops_ok {refs : List String} (hkey : idKey node = .ok key)
    (h : refs.foldlM (assessDrop setup moveMap node name) drops = .ok drops') :
    (∀ ref ∈ refs, (moveOf moveMap (field node "id") ref).isSome) ∧
      ∀ key' ref, drops'.lookup (key', ref) =
        if key' = key ∧ ref ∈ refs then some name else drops.lookup (key', ref) := by
  induction refs generalizing drops with
  | nil =>
    rw [List.foldlM_nil, pure_eq_ok] at h
    rw [h]
    exact ⟨fun ref href => absurd href List.not_mem_nil, fun key' ref => by simp⟩
  | cons first refs ih =>
    rw [List.foldlM_cons] at h
    obtain ⟨drops₁, hfirst, h⟩ := bind_eq_ok.mp h
    obtain ⟨hmove, rfl⟩ := assessDrop_ok hkey hfirst
    obtain ⟨hmoves, hlookup⟩ := ih h
    constructor
    · exact List.forall_mem_cons.mpr ⟨hmove, hmoves⟩
    · intro key' ref
      rw [hlookup, List.lookup_cons]
      by_cases hin : key' = key ∧ ref ∈ refs
      · rw [if_pos hin, if_pos ⟨hin.1, List.mem_cons_of_mem first hin.2⟩]
      · rw [if_neg hin]
        by_cases hhere : key' = key ∧ ref = first
        · rw [hhere.1, hhere.2, beq_self_eq_true, if_pos ⟨rfl, List.mem_cons_self⟩]
        · have hne : ((key', ref) == (key, first)) = false := by
            rw [beq_eq_false_iff_ne]
            intro heq
            exact hhere (Prod.mk.inj heq)
          rw [hne, if_neg]
          rintro ⟨hkey', hmem⟩
          rcases List.mem_cons.mp hmem with heq | hmem
          · exact hhere ⟨hkey', heq⟩
          · exact hin ⟨hkey', hmem⟩

/-- The references that a node gives up in some fields, one field after the other. -/
theorem assessFields_ok {names : List String} (hkey : idKey node = .ok key)
    (h : names.foldlM (fun drops name =>
      (goneRefs old node name).foldlM (assessDrop setup moveMap node name) drops) drops =
        .ok drops') :
    (∀ name ∈ names, ∀ ref ∈ goneRefs old node name,
      (moveOf moveMap (field node "id") ref).isSome) ∧
      ∀ key' ref, drops'.lookup (key', ref) =
        if key' = key then
          ((names.filter fun name => ref ∈ goneRefs old node name).getLast?).or
            (drops.lookup (key', ref))
        else drops.lookup (key', ref) := by
  induction names generalizing drops with
  | nil =>
    rw [List.foldlM_nil, pure_eq_ok] at h
    rw [h]
    exact ⟨fun name hname => absurd hname List.not_mem_nil, fun key' ref => by simp⟩
  | cons first names ih =>
    rw [List.foldlM_cons] at h
    obtain ⟨drops₁, hfirst, h⟩ := bind_eq_ok.mp h
    obtain ⟨hmove, hlookup₁⟩ := assessDrops_ok hkey hfirst
    obtain ⟨hmoves, hlookup⟩ := ih h
    constructor
    · exact List.forall_mem_cons.mpr ⟨hmove, hmoves⟩
    · intro key' ref
      rw [hlookup, hlookup₁]
      by_cases hkey' : key' = key
      · rw [if_pos hkey', if_pos hkey', List.filter_cons]
        by_cases hgone : ref ∈ goneRefs old node first
        · rw [if_pos ⟨hkey', hgone⟩, if_pos (decide_eq_true hgone), List.getLast?_cons]
          cases (names.filter fun name => ref ∈ goneRefs old node name).getLast? <;> rfl
        · rw [if_neg fun hin => hgone hin.2, if_neg fun hin => hgone (of_decide_eq_true hin)]
      · rw [if_neg hkey', if_neg hkey', if_neg fun hin => hkey' hin.1]

theorem checkedField_str (old new : Node) (text : String) :
    checkedField old new (.str text) =
      (sortedReferenceKeys.filter fun name => text ∈ goneRefs old new name).getLast? := by
  unfold checkedField
  congr 2
  funext name
  rw [Bool.eq_iff_iff, List.any_eq_true, decide_eq_true_iff]
  simp

/-- What is checked of a node that is replaced. -/
structure Replaces (moveMap : List ((String × String) × String)) (old node : Node) : Prop where
  kind : (field node "kind").eq (field old "kind") = true
  moved : ∀ name ∈ sortedReferenceKeys, ∀ ref ∈ goneRefs old node name,
    (moveOf moveMap (field node "id") ref).isSome

theorem assessReplaced_ok (hkey : idKey node = .ok key)
    (h : assessReplaced setup existing moveMap drops node = .ok drops') :
    (existing.lookup key = none ∧ drops' = drops) ∨
      ∃ old, existing.lookup key = some old ∧ Replaces moveMap old node ∧
        ∀ key' ref, drops'.lookup (key', ref) =
          if key' = key then (checkedField old node (.str ref)).or (drops.lookup (key', ref))
          else drops.lookup (key', ref) := by
  obtain ⟨key', hkey', h⟩ := bind_eq_ok.mp h
  obtain rfl := Except.ok.inj (hkey.symm.trans (raisingError_eq_ok.mp hkey'))
  split at h
  · next hnone => exact .inl ⟨hnone, (pure_eq_ok.mp h).symm⟩
  · next old hold =>
    have hkind : (field node "kind").eq (field old "kind") = true := by
      cases heq : (field node "kind").eq (field old "kind") with
      | true => rfl
      | false =>
        rw [heq] at h
        cases h
    rw [hkind] at h
    obtain ⟨hmoves, hlookup⟩ := assessFields_ok hkey h
    refine .inr ⟨old, hold, ⟨hkind, hmoves⟩, ?_⟩
    intro key' ref
    rw [hlookup, checkedField_str]

/-- Every drop that is recorded is the last of a replaced node. -/
theorem drops_ok {nodes : List Node}
    (h : nodes.foldlM (assessReplaced setup existing moveMap) [] = .ok drops) :
    (∀ node ∈ nodes, ∀ key, idKey node = .ok key → ∀ old, existing.lookup key = some old →
      Replaces moveMap old node) ∧
      ∀ key ref name, drops.lookup (key, ref) = some name →
        ∃ node ∈ nodes, idKey node = .ok key ∧ ∃ old, existing.lookup key = some old ∧
          checkedField old node (.str ref) = some name := by
  induction nodes using List.reverseRecOn generalizing drops with
  | nil =>
    rw [List.foldlM_nil, pure_eq_ok] at h
    rw [← h]
    exact ⟨fun node hnode => absurd hnode List.not_mem_nil, fun key ref name hname => by cases hname⟩
  | append_singleton nodes last ih =>
    rw [List.foldlM_append] at h
    obtain ⟨drops₁, hnodes, h⟩ := bind_eq_ok.mp h
    rw [List.foldlM_cons] at h
    obtain ⟨drops₂, hlast, h⟩ := bind_eq_ok.mp h
    rw [List.foldlM_nil, pure_eq_ok] at h
    subst h
    obtain ⟨hreplaced, hdrops⟩ := ih hnodes
    obtain ⟨key, hkey, -⟩ := bind_eq_ok.mp hlast
    have hkey := raisingError_eq_ok.mp hkey
    have hearlier : ∀ key ref name, drops₁.lookup (key, ref) = some name →
        ∃ node ∈ nodes ++ [last], idKey node = .ok key ∧ ∃ old, existing.lookup key = some old ∧
          checkedField old node (.str ref) = some name := by
      intro key ref name hname
      obtain ⟨node, hnode, hfound⟩ := hdrops key ref name hname
      exact ⟨node, List.mem_append_left _ hnode, hfound⟩
    obtain ⟨hnone, rfl⟩ | ⟨old, hold, hreplaces, hlookup⟩ := assessReplaced_ok hkey hlast
    · refine ⟨fun node hnode key' hkey' old hold => ?_, hearlier⟩
      rcases List.mem_append.mp hnode with hnode | hnode
      · exact hreplaced node hnode key' hkey' old hold
      · rw [List.mem_singleton.mp hnode, hkey] at hkey'
        rw [← Except.ok.inj hkey', hnone] at hold
        cases hold
    · constructor
      · intro node hnode key' hkey' old' hold'
        rcases List.mem_append.mp hnode with hnode | hnode
        · exact hreplaced node hnode key' hkey' old' hold'
        · rw [List.mem_singleton.mp hnode, hkey] at hkey'
          rw [← Except.ok.inj hkey', hold] at hold'
          rw [List.mem_singleton.mp hnode, ← Option.some.inj hold']
          exact hreplaces
      · intro key' ref name hname
        rw [hlookup] at hname
        split_ifs at hname with hsame
        · cases hchecked : checkedField old last (.str ref) with
          | some name' =>
            rw [hchecked] at hname
            refine ⟨last, List.mem_append_right _ (List.mem_singleton_self last), ?_⟩
            rw [hsame]
            exact ⟨hkey, old, hold, hchecked.trans hname⟩
          | none =>
            rw [hchecked] at hname
            exact hearlier key' ref name hname
        · exact hearlier key' ref name hname

end

end Lnpl.Protocol
