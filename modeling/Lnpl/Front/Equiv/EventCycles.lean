import Lnpl.Front.EventCycles
import Lnpl.Lib.DepthFirst

/-!
# Correctness of `checkEventConsumeCycles`

The graph of the check has the edges of `consume by` and `emit` (`mem_neighbours_iff`).  Its search
keeps the invariant of a depth-first search that goes on after what it finds (`Walking`), and every
turn takes from what is left, so that the fuel suffices.  A cycle is reported iff there is one; what
is reported are closed walks without a repeated node, of different sets of nodes
(`consume_cycles_spec`).
-/

namespace Lnpl.Front.EventCycles

open Lib.DepthFirst (ClosedWalk Visiting whiteTurns stackTurns)
open Lib.Py (sortTexts)

/-! ### Edges -/

/-- The event is declared with `consume by` the workflow. -/
def Declared.Consumes (d : Declared) (eid wid : String) : Prop :=
  ∃ e ∈ d.events, e.id = eid ∧ e.consume = some wid

/-- A step of the workflow emits the event. -/
def Declared.Emits (d : Declared) (wid eid : String) : Prop :=
  ∃ w ∈ d.workflows, w.id = wid ∧ ∃ node ∈ w.emitted, node.kind = "EventEmit" ∧ node.event = eid

/-- The edges from events to workflows and from workflows to events. -/
def Declared.Triggers (d : Declared) (n m : String) : Prop := d.Consumes n m ∨ d.Emits n m

def Declared.graph (d : Declared) : Graph :=
  eventGraph (eventConsumes d.events) (emitsByWorkflow d.workflows)

def successors (graph : Graph) (node : String) : List String := (graph.lookup node).getD []

variable {graph : Graph} {n m : String}

theorem lookup_map_insert (a b : String) :
    (graph.map fun entry => if entry.1 = a then (entry.1, entry.2.insert b) else entry).lookup n =
      (graph.lookup n).map fun nexts => if n = a then nexts.insert b else nexts := by
  induction graph with
  | nil => rfl
  | cons entry graph ih =>
    rw [List.map_cons, List.lookup_cons, List.lookup_cons, ih]
    by_cases hn : n = entry.1
    · by_cases ha : entry.1 = a
      · simp [hn, ha]
      · simp [hn, ha]
    · have hbeq : (n == entry.1) = false := beq_false_of_ne hn
      by_cases ha : entry.1 = a
      · rw [if_pos ha, hbeq]
      · rw [if_neg ha, hbeq]

/-- An edge is added, and no other. -/
theorem mem_successors_addEdge (a b : String) :
    m ∈ successors (addEdge graph a b) n ↔ m ∈ successors graph n ∨ (n = a ∧ m = b) := by
  rw [successors, successors, addEdge]
  split_ifs with hsome
  · obtain ⟨nexts, hnexts⟩ := Option.isSome_iff_exists.mp hsome
    rw [lookup_map_insert]
    by_cases hn : n = a
    · subst hn
      simp [hnexts, or_comm]
    · cases graph.lookup n <;> simp [hn]
  · rw [Option.not_isSome_iff_eq_none] at hsome
    rw [List.lookup_append]
    by_cases hn : n = a
    · subst hn
      simp [hsome]
    · have hbeq : (n == a) = false := beq_false_of_ne hn
      cases graph.lookup n <;> simp [hn, List.lookup_cons, hbeq]

theorem nodup_addEdge (a b : String) (h : (graph.map Prod.fst).Nodup) :
    ((addEdge graph a b).map Prod.fst).Nodup := by
  rw [addEdge]
  split_ifs with hsome
  · have hkeys : (graph.map fun entry =>
        if entry.1 = a then (entry.1, entry.2.insert b) else entry).map Prod.fst =
        graph.map Prod.fst := by
      rw [List.map_map]
      apply List.map_congr_left
      intro entry _
      dsimp only [Function.comp_apply]
      split_ifs <;> rfl
    rw [hkeys]
    exact h
  · rw [List.map_append, List.map_singleton, List.nodup_append]
    refine ⟨h, List.nodup_singleton a, ?_⟩
    intro k hk k' hk' heq
    rw [List.mem_singleton.mp hk'] at heq
    rw [heq] at hk
    obtain ⟨entry, hentry, rfl⟩ := List.mem_map.mp hk
    exact hsome (List.lookup_isSome_iff.mpr ⟨entry, hentry, beq_self_eq_true _⟩)

/-- The edges that are added one after the other are those of the graph. -/
theorem foldl_addEdge {α : Type} (edges : List α) (source target : α → String)
    (h : (graph.map Prod.fst).Nodup) :
    ((edges.foldl (fun graph e => addEdge graph (source e) (target e)) graph).map Prod.fst).Nodup ∧
    ∀ n m, m ∈ successors
        (edges.foldl (fun graph e => addEdge graph (source e) (target e)) graph) n ↔
      m ∈ successors graph n ∨ ∃ e ∈ edges, source e = n ∧ target e = m := by
  induction edges generalizing graph with
  | nil => exact ⟨h, by simp⟩
  | cons e edges ih =>
    obtain ⟨hnodup, hmem⟩ := ih (nodup_addEdge (source e) (target e) h)
    refine ⟨hnodup, fun n m => ?_⟩
    rw [List.foldl_cons, hmem, mem_successors_addEdge, or_assoc]
    apply or_congr_right
    constructor
    · rintro (⟨hn, hm⟩ | ⟨e', he', hedge⟩)
      · exact ⟨e, List.mem_cons_self, hn.symm, hm.symm⟩
      · exact ⟨e', List.mem_cons_of_mem e he', hedge⟩
    · rintro ⟨e', he', hn, hm⟩
      rcases List.mem_cons.mp he' with rfl | he'
      · exact .inl ⟨hn.symm, hm.symm⟩
      · exact .inr ⟨e', he', hn, hm⟩

theorem mem_eventConsumes (d : Declared) :
    (∃ edge ∈ eventConsumes d.events, edge.1 = n ∧ edge.2 = m) ↔ d.Consumes n m := by
  constructor
  · rintro ⟨edge, hedge, rfl, rfl⟩
    obtain ⟨e, he, hconsume⟩ := List.mem_filterMap.mp hedge
    obtain ⟨wid, hwid, rfl⟩ := Option.map_eq_some_iff.mp hconsume
    exact ⟨e, he, rfl, hwid⟩
  · rintro ⟨e, he, rfl, hconsume⟩
    refine ⟨(e.id, m), List.mem_filterMap.mpr ⟨e, he, ?_⟩, rfl, rfl⟩
    rw [hconsume, Option.map_some]

theorem mem_emitsByWorkflow (d : Declared) :
    (∃ edge ∈ (emitsByWorkflow d.workflows).flatMap fun entry => entry.2.map (entry.1, ·),
      edge.1 = n ∧ edge.2 = m) ↔ d.Emits n m := by
  constructor
  · rintro ⟨edge, hedge, rfl, rfl⟩
    obtain ⟨entry, hentry, hmem⟩ := List.mem_flatMap.mp hedge
    obtain ⟨eid, heid, rfl⟩ := List.mem_map.mp hmem
    obtain ⟨w, hw, rfl⟩ := List.mem_map.mp hentry
    obtain ⟨node, hnode, rfl⟩ := List.mem_map.mp (List.mem_dedup.mp heid)
    obtain ⟨hnode, hkind⟩ := List.mem_filter.mp hnode
    exact ⟨w, hw, rfl, node, hnode, of_decide_eq_true hkind, rfl⟩
  · rintro ⟨w, hw, rfl, node, hnode, hkind, rfl⟩
    refine ⟨(w.id, node.event), List.mem_flatMap.mpr ⟨_, List.mem_map_of_mem hw, ?_⟩, rfl, rfl⟩
    apply List.mem_map_of_mem
    rw [List.mem_dedup]
    exact List.mem_map_of_mem (List.mem_filter.mpr ⟨hnode, decide_eq_true hkind⟩)

theorem graph_spec (d : Declared) :
    (d.graph.map Prod.fst).Nodup ∧ ∀ n m, m ∈ successors d.graph n ↔ d.Triggers n m := by
  have hempty : (([] : List (String × List String)).map Prod.fst).Nodup := List.nodup_nil
  have hconsumes := foldl_addEdge (eventConsumes d.events) Prod.fst Prod.snd hempty
  have hemits := foldl_addEdge
    ((emitsByWorkflow d.workflows).flatMap fun entry => entry.2.map (entry.1, ·)) Prod.fst Prod.snd
    hconsumes.1
  have hgraph : d.graph = ((emitsByWorkflow d.workflows).flatMap fun entry =>
      entry.2.map (entry.1, ·)).foldl (fun graph edge => addEdge graph edge.1 edge.2)
      ((eventConsumes d.events).foldl (fun graph edge => addEdge graph edge.1 edge.2) []) := by
    rw [Declared.graph, eventGraph, List.foldl_flatMap]
    simp only [List.foldl_map]
  rw [hgraph]
  refine ⟨hemits.1, fun n m => ?_⟩
  rw [hemits.2, hconsumes.2, mem_eventConsumes, mem_emitsByWorkflow, Declared.Triggers]
  simp [successors]

theorem mem_neighbours_iff (d : Declared) : m ∈ neighbours d.graph n ↔ d.Triggers n m := by
  rw [neighbours, sortTexts, List.mem_insertionSort]
  exact (graph_spec d).2 n m

/-! ### What is reported -/

theorem foldl_smallest_mem (nodes : List String) (first : String) :
    nodes.foldl (fun a b => if b < a then b else a) first ∈ first :: nodes := by
  induction nodes generalizing first with
  | nil => exact List.mem_cons_self
  | cons n nodes ih =>
    rw [List.foldl_cons]
    split_ifs
    · exact List.mem_cons_of_mem first (ih n)
    · rcases List.mem_cons.mp (ih first) with h | h
      · rw [h]
        exact List.mem_cons_self
      · exact List.mem_cons_of_mem first (List.mem_cons_of_mem n h)

/-- The smallest node comes first, then what is behind it, then what is in front of it. -/
theorem rotate_eq {nodes : List String} (h : nodes ≠ []) :
    ∃ front smallest back, nodes = front ++ smallest :: back ∧
      rotate nodes = smallest :: (back ++ front ++ [smallest]) := by
  obtain ⟨first, rest, rfl⟩ := List.exists_cons_of_ne_nil h
  rw [rotate]
  set smallest := (first :: rest).foldl (fun a b => if b < a then b else a)
    ((first :: rest).headD "") with hsmallest
  have hmem : smallest ∈ first :: rest := by
    have hfold := foldl_smallest_mem (first :: rest) first
    rcases List.mem_cons.mp hfold with h | h
    · exact h ▸ List.mem_cons_self
    · exact h
  have hlt : (first :: rest).idxOf smallest < (first :: rest).length :=
    List.idxOf_lt_length_iff.mpr hmem
  have hget : (first :: rest)[(first :: rest).idxOf smallest] = smallest := List.getElem_idxOf hlt
  have hdrop : (first :: rest).drop ((first :: rest).idxOf smallest) =
      smallest :: (first :: rest).drop ((first :: rest).idxOf smallest + 1) := by
    rw [List.drop_eq_getElem_cons hlt, hget]
  refine ⟨(first :: rest).take ((first :: rest).idxOf smallest), smallest,
    (first :: rest).drop ((first :: rest).idxOf smallest + 1), ?_, ?_⟩
  · rw [← hdrop, List.take_append_drop]
  · rw [hdrop]
    simp only [List.cons_append, List.append_assoc]

/-- The two lists have the same elements. -/
theorem sameSet_iff {nodes others : List String} :
    sameSet nodes others = true ↔ ∀ n, n ∈ nodes ↔ n ∈ others := by
  rw [sameSet, Bool.and_eq_true, List.all_eq_true, List.all_eq_true]
  simp only [List.contains_iff_mem]
  constructor
  · rintro ⟨h, h'⟩ n
    exact ⟨h n, h' n⟩
  · intro h
    exact ⟨fun n => (h n).mp, fun n => (h n).mpr⟩

/-- The reported cycles are closed walks without a repeated node, and no two have the same nodes. -/
structure Reported (r : String → String → Prop) (cycles : List (List String)) : Prop where
  closed : ∀ cycle ∈ cycles, ClosedWalk r cycle ∧ cycle.dropLast.Nodup
  apart : cycles.Pairwise fun cycle other => ¬∀ n, n ∈ cycle.dropLast ↔ n ∈ other.dropLast

variable {r : String → String → Prop} {s : Search} {path : List String} {closing : String}

theorem report_ne_nil (s : Search) (path : List String) (closing : String) :
    (s.report path closing).reported ≠ [] := by
  rw [Search.report]
  split_ifs with hany
  · rintro hnil
    rw [hnil] at hany
    cases hany
  · exact List.append_ne_nil_of_right_ne_nil _ (List.cons_ne_nil _ _)

theorem colour_report (s : Search) (path : List String) (closing : String) :
    (s.report path closing).colour = s.colour := by
  rw [Search.report]
  split_ifs <;> rfl

/-- What a closed walk along the path adds to what is reported. -/
theorem Reported.report (h : Reported r s.reported)
    (hclosed : ClosedWalk r (path.dropWhile (· ≠ closing) ++ [closing])) (hnodup : path.Nodup) :
    Reported r (s.report path closing).reported := by
  rw [Search.report]
  split_ifs with hany
  · exact h
  have hhead : (path.dropWhile (· ≠ closing)).head? = some closing := by
    obtain ⟨n, rest, heq, -⟩ := hclosed
    have hsplit : _ ++ [closing] = (n :: rest) ++ [n] := heq
    obtain ⟨hnodes, hlast⟩ := List.append_inj' hsplit rfl
    rw [hnodes, List.cons.inj hlast |>.1]
    rfl
  have hne : path.dropWhile (· ≠ closing) ≠ [] := by
    intro hnil
    rw [hnil] at hhead
    cases hhead
  obtain ⟨front, smallest, back, hnodes, hrotate⟩ := rotate_eq hne
  have hdropLast : (rotate (path.dropWhile (· ≠ closing))).dropLast =
      smallest :: (back ++ front) := by
    rw [hrotate, ← List.cons_append, ← List.cons_append, List.dropLast_concat, List.cons_append]
  have hperm : (smallest :: (back ++ front)).Perm (path.dropWhile (· ≠ closing)) := by
    rw [hnodes]
    exact @List.perm_append_comm _ (smallest :: back) front
  refine ⟨?_, ?_⟩
  · intro cycle hcycle
    rcases List.mem_append.mp hcycle with hcycle | hcycle
    · exact h.closed cycle hcycle
    · rw [List.mem_singleton.mp hcycle]
      constructor
      · rw [hrotate]
        rw [hnodes] at hclosed hhead
        exact hclosed.rotate hhead
      · rw [hdropLast]
        exact hperm.nodup_iff.mpr (hnodup.sublist (List.dropWhile_sublist _))
  · rw [List.pairwise_append]
    refine ⟨h.apart, List.pairwise_singleton _ _, ?_⟩
    intro cycle hcycle other hother hsame
    rw [List.mem_singleton.mp hother, hdropLast] at hsame
    apply hany
    rw [List.any_eq_true]
    refine ⟨cycle, hcycle, sameSet_iff.mpr fun n => ?_⟩
    rw [hsame n]
    exact hperm.mem_iff

/-! ### The search from one root -/

/-- The node has successors. -/
def Known (graph : Graph) (node : String) : Prop := (graph.lookup node).isSome

/-- The edges between nodes with successors. -/
def Edge (graph : Graph) : String → String → Prop :=
  Lib.DepthFirst.Edge (neighbours graph) (Known graph)

variable {frames : List (String × List String)} {rest : List String}

/-- The colours, the path and the frames are those of one search. -/
structure Walking (graph : Graph) (s : Search) (path : List String)
    (frames : List (String × List String)) : Prop where
  visiting : Visiting (neighbours graph) (Known graph) (fun node => s.colour node = .black)
    (s.reported ≠ []) frames
  path : path = (frames.map Prod.fst).reverse
  grey : ∀ node, s.colour node = .grey ↔ node ∈ frames.map Prod.fst
  reported : Reported (Edge graph) s.reported

/-- Between two searches nothing is grey, and if nothing is reported, no walk from a black node goes
on for ever. -/
structure Settled (graph : Graph) (s : Search) : Prop where
  grey : ∀ node, s.colour node ≠ .grey
  finished : s.reported = [] → ∀ node, s.colour node = .black →
    Acc (fun a b => Edge graph b a) node
  reported : Reported (Edge graph) s.reported

theorem black_paint_grey (hwhite : s.colour n = .white) :
    (fun node => (s.paint n .grey).colour node = .black) = fun node => s.colour node = .black :=
  Lib.DepthFirst.painted_eq_of_ne (by decide) (by rw [hwhite]; decide)

theorem Walking.finish (h : Walking graph s path ((n, []) :: frames)) :
    Walking graph (s.paint n .black) path.dropLast frames where
  visiting := by
    have hblack : (fun node => (s.paint n .black).colour node = .black) = _ :=
      Lib.DepthFirst.painted_eq s.colour n .black
    rw [hblack]
    exact h.visiting.finish
  path := by rw [h.path, List.map_cons, List.reverse_cons, List.dropLast_concat]
  grey :=
    Lib.DepthFirst.painted_iff_mem (by decide) h.grey (List.nodup_cons.mp h.visiting.nodup).1
  reported := h.reported

section

variable (h : Walking graph s path ((n, m :: rest) :: frames))
include h

theorem Walking.skip (hm : Known graph m → s.colour m = .black) :
    Walking graph s path ((n, rest) :: frames) where
  visiting := h.visiting.skip hm
  path := h.path
  grey := h.grey
  reported := h.reported

theorem Walking.report (hm : s.colour m = .grey) :
    Walking graph (s.report path m) path ((n, rest) :: frames) where
  visiting := by
    have hfound : ((s.report path m).reported ≠ []) = True := eq_true (report_ne_nil s path m)
    rw [colour_report, hfound]
    exact h.visiting.report
  path := h.path
  grey node := by
    rw [colour_report]
    exact h.grey node
  reported := by
    have hclosed := h.visiting.closedWalk ((h.grey m).mp hm)
    apply h.reported.report
    · rw [h.path]
      exact hclosed
    · rw [h.path]
      exact List.nodup_reverse.mpr h.visiting.nodup

theorem Walking.descend (hknown : Known graph m) (hwhite : s.colour m = .white) :
    Walking graph (s.paint m .grey) (path ++ [m])
      ((m, neighbours graph m) :: (n, rest) :: frames) where
  visiting := by
    have hgrey : m ∉ n :: frames.map Prod.fst := by
      intro hmem
      rw [(h.grey m).mpr hmem] at hwhite
      cases hwhite
    rw [black_paint_grey hwhite]
    exact h.visiting.descend hknown (by rw [hwhite]; decide) hgrey
  path := by rw [h.path]; simp
  grey := Lib.DepthFirst.painted_iff_mem_cons h.grey m
  reported := h.reported

end

/-- The search may start wherever a node is white. -/
theorem Settled.walking (h : Settled graph s) (hknown : Known graph n)
    (hwhite : s.colour n = .white) :
    Walking graph (s.paint n .grey) [n] [(n, neighbours graph n)] where
  visiting := by
    rw [black_paint_grey hwhite]
    apply Visiting.start
    · intro hfound
      exact h.finished (not_not.mp hfound)
    · exact hknown
    · rw [hwhite]
      decide
  path := rfl
  grey := Lib.DepthFirst.painted_iff_mem_cons (fun node => by simp [h.grey node]) n
  reported := h.reported

/-- What a search ends with: settled colours, with what was black or on the stack black; what was
reported stays so. -/
structure Ends (graph : Graph) (s : Search) (frames : List (String × List String)) (s' : Search) :
    Prop where
  settled : Settled graph s'
  black : ∀ node, s.colour node = .black ∨ node ∈ frames.map Prod.fst → s'.colour node = .black
  kept : s.reported ≠ [] → s'.reported ≠ []

/-- The turns that are left. -/
def turnsLeft (graph : Graph) (s : Search) (frames : List (String × List String)) : ℕ :=
  whiteTurns (neighbours graph) (fun node => decide (s.colour node = .white))
    (graph.map Prod.fst) + stackTurns frames

theorem mem_of_known (h : Known graph n) : n ∈ graph.map Prod.fst := by
  obtain ⟨entry, hentry, hbeq⟩ := List.lookup_isSome_iff.mp h
  rw [eq_of_beq hbeq]
  exact List.mem_map_of_mem hentry

theorem known_of_mem (h : n ∈ graph.map Prod.fst) : Known graph n := by
  obtain ⟨entry, hentry, rfl⟩ := List.mem_map.mp h
  exact List.lookup_isSome_iff.mpr ⟨entry, hentry, beq_self_eq_true _⟩

section

variable (hnodup : (graph.map Prod.fst).Nodup)
include hnodup

/-- A node that is painted grey takes its turns to the stack. -/
theorem turnsLeft_enter (hknown : Known graph n) (hwhite : s.colour n = .white) :
    turnsLeft graph (s.paint n .grey) ((n, neighbours graph n) :: frames) =
      turnsLeft graph s frames := by
  have henter := @Lib.DepthFirst.whiteTurns_paint_enter _ (neighbours graph) _ _ _ s.colour .grey
    .white _ _ (by decide) hnodup (mem_of_known hknown) hwhite
  rw [turnsLeft, turnsLeft, stackTurns, Search.paint]
  dsimp only
  omega

/-- **The search from one root** ends. -/
theorem visit_spec {fuel : ℕ} (h : Walking graph s path frames)
    (hfuel : turnsLeft graph s frames < fuel) :
    ∃ s', visit graph fuel s path frames = some s' ∧ Ends graph s frames s' := by
  induction fuel generalizing s path frames with
  | zero => exact absurd hfuel (Nat.not_lt_zero _)
  | succ fuel ih =>
  match frames with
  | [] =>
    refine ⟨s, rfl, ⟨?_, ?_, h.reported⟩, fun node hnode => ?_, id⟩
    · intro node hgrey
      exact absurd ((h.grey node).mp hgrey) List.not_mem_nil
    · intro hnone
      exact (h.visiting.quiet (not_not.mpr hnone)).finished
    · exact hnode.resolve_right List.not_mem_nil
  | (n, []) :: frames =>
    have hsame : turnsLeft graph (s.paint n .black) frames + 1 =
        turnsLeft graph s ((n, []) :: frames) := by
      have hgrey := (h.grey n).mpr List.mem_cons_self
      rw [turnsLeft, turnsLeft, Search.paint, Lib.DepthFirst.whiteTurns_paint (by decide)
        (by rw [hgrey]; decide), stackTurns, List.length_nil]
      omega
    obtain ⟨s', hvisit, hends⟩ := ih h.finish (by omega)
    refine ⟨s', hvisit, hends.settled, fun node hnode => hends.black node ?_, hends.kept⟩
    rw [Search.paint]
    dsimp only
    by_cases hn : node = n
    · exact .inl (if_pos hn)
    · rw [if_neg hn]
      exact hnode.imp_right fun hmem => (List.mem_cons.mp hmem).resolve_left hn
  | (n, m :: rest) :: frames =>
    have hshorter : turnsLeft graph s ((n, rest) :: frames) + 1 =
        turnsLeft graph s ((n, m :: rest) :: frames) := by
      rw [turnsLeft, turnsLeft, stackTurns, stackTurns, List.length_cons]
      omega
    rw [visit]
    cases hcolour : s.colour m with
    | black =>
      obtain ⟨s', hvisit, hends⟩ := ih (h.skip fun _ => hcolour) (by omega)
      exact ⟨s', hvisit, hends.settled, hends.black, hends.kept⟩
    | grey =>
      have hturns : turnsLeft graph (s.report path m) ((n, rest) :: frames) =
          turnsLeft graph s ((n, rest) :: frames) := by
        rw [turnsLeft, colour_report, turnsLeft]
      obtain ⟨s', hvisit, hends⟩ := ih (h.report hcolour) (by omega)
      refine ⟨s', hvisit, hends.settled, fun node hnode => hends.black node ?_, fun _ => ?_⟩
      · rw [colour_report]
        exact hnode
      · exact hends.kept (report_ne_nil s path m)
    | white =>
      dsimp only
      split_ifs with hknown
      · have henter : turnsLeft graph (s.paint m .grey) ((m, neighbours graph m) :: (n, rest) ::
            frames) = turnsLeft graph s ((n, rest) :: frames) :=
          turnsLeft_enter hnodup hknown hcolour
        obtain ⟨s', hvisit, hends⟩ := ih (h.descend hknown hcolour) (by omega)
        refine ⟨s', hvisit, hends.settled, fun node hnode => hends.black node ?_, hends.kept⟩
        rcases hnode with hblack | hmem
        · left
          have hne : node ≠ m := by
            rintro rfl
            rw [hblack] at hcolour
            cases hcolour
          rw [Search.paint]
          exact (if_neg hne).trans hblack
        · exact .inr (List.mem_cons_of_mem m hmem)
      · obtain ⟨s', hvisit, hends⟩ := ih (h.skip fun hm => absurd hm hknown) (by omega)
        exact ⟨s', hvisit, hends.settled, hends.black, hends.kept⟩

/-! ### All roots -/

/-- The loop over the roots ends, with every root black. -/
theorem visitRoots_spec {roots : List String} (hroots : ∀ root ∈ roots, Known graph root)
    (h : Settled graph s) :
    ∃ s', visitRoots graph roots s = some s' ∧ Settled graph s' ∧
      ∀ node, s.colour node = .black ∨ node ∈ roots → s'.colour node = .black := by
  induction roots generalizing s with
  | nil => exact ⟨s, rfl, h, fun node hnode => hnode.resolve_right List.not_mem_nil⟩
  | cons root roots ih =>
    obtain ⟨hroot, hrest⟩ := List.forall_mem_cons.mp hroots
    rw [visitRoots]
    cases hcolour : s.colour root with
    | grey => exact absurd hcolour (h.grey root)
    | black =>
      rw [if_pos (by decide)]
      obtain ⟨s', hvisit, hsettled, hblack⟩ := ih hrest h
      refine ⟨s', hvisit, hsettled, fun node hnode => hblack node ?_⟩
      rcases hnode with hnode | hnode
      · exact .inl hnode
      · rcases List.mem_cons.mp hnode with rfl | hnode
        · exact .inl hcolour
        · exact .inr hnode
    | white =>
      rw [if_neg (by decide)]
      have hfuel : turnsLeft graph (s.paint root .grey) [(root, neighbours graph root)] <
          turns graph := by
        rw [turnsLeft_enter hnodup hroot hcolour, turnsLeft, turns, stackTurns]
        have hle : whiteTurns (neighbours graph) (fun node => decide (s.colour node = .white))
            (graph.map Prod.fst) ≤
              ((graph.map Prod.fst).map fun n => (neighbours graph n).length + 1).sum :=
          Lib.DepthFirst.whiteTurns_le _ _
        omega
      obtain ⟨s₁, hvisit, hends⟩ := visit_spec hnodup (h.walking hroot hcolour) hfuel
      obtain ⟨s', hvisitRoots, hsettled, hblack⟩ := ih hrest hends.settled
      refine ⟨s', ?_, hsettled, fun node hnode => ?_⟩
      · rw [hvisit, Option.bind_some, hvisitRoots]
      · rcases hnode with hnode | hnode
        · apply hblack node (.inl (hends.black node (.inl ?_)))
          have hne : node ≠ root := by
            rintro rfl
            rw [hnode] at hcolour
            cases hcolour
          rw [Search.paint]
          exact (if_neg hne).trans hnode
        · rcases List.mem_cons.mp hnode with rfl | hnode
          · exact hblack node (.inl (hends.black node (.inr List.mem_cons_self)))
          · exact hblack node (.inr hnode)

end

theorem known_of_triggers {d : Declared} (h : d.Triggers n m) : Known d.graph n := by
  rw [← mem_neighbours_iff, neighbours, sortTexts, List.mem_insertionSort] at h
  cases hlookup : d.graph.lookup n with
  | none =>
    rw [hlookup] at h
    exact absurd h List.not_mem_nil
  | some nexts => exact Option.isSome_of_eq_some hlookup

/-- **Soundness and completeness**: the check ends; it reports a cycle iff the edges of `consume by`
and `emit` have one; what it reports are closed walks along such edges, no inner node twice; and no
set of nodes is reported twice. -/
theorem consume_cycles_spec (d : Declared) :
    ∃ cycles, checkEventConsumeCycles (eventConsumes d.events) (emitsByWorkflow d.workflows) =
        some (cycles.map cycleDiagnostic) ∧
      (cycles ≠ [] ↔ ∃ walk, ClosedWalk d.Triggers walk) ∧
      (∀ cycle ∈ cycles, ClosedWalk d.Triggers cycle ∧ cycle.dropLast.Nodup) ∧
      cycles.Pairwise fun cycle other => ¬∀ n, n ∈ cycle.dropLast ↔ n ∈ other.dropLast := by
  have hstart : Settled d.graph ⟨fun _ => .white, []⟩ := by
    refine ⟨nofun, fun _ node hnode => ?_, ⟨nofun, List.Pairwise.nil⟩⟩
    cases hnode
  obtain ⟨s, hvisit, hsettled, hblack⟩ := visitRoots_spec (graph_spec d).1
    (fun root hroot => known_of_mem hroot) hstart
  have hcheck : checkEventConsumeCycles (eventConsumes d.events) (emitsByWorkflow d.workflows) =
      some (s.reported.map cycleDiagnostic) := by
    rw [checkEventConsumeCycles]
    exact congrArg _ hvisit
  have htriggers : ∀ n m, Edge d.graph n m → d.Triggers n m := fun n m hedge =>
    (mem_neighbours_iff d).mp hedge.1
  refine ⟨s.reported, hcheck, ⟨?_, ?_⟩, ?_, hsettled.reported.apart⟩
  · intro hne
    obtain ⟨cycle, hcycle⟩ := List.exists_mem_of_ne_nil _ hne
    exact ⟨cycle, (hsettled.reported.closed cycle hcycle).1.mono htriggers⟩
  · rintro ⟨walk, hwalk⟩ hnone
    have hedges : ClosedWalk (Edge d.graph) walk :=
      (hwalk.known fun n m h => known_of_triggers h).mono
        fun n m h => ⟨(mem_neighbours_iff d).mpr h.1, h.2⟩
    apply Lib.DepthFirst.not_closedWalk _ walk hedges
    intro node hknown
    exact hsettled.finished hnone node (hblack node (.inr (mem_of_known hknown)))
  · intro cycle hcycle
    obtain ⟨hclosed, hinner⟩ := hsettled.reported.closed cycle hcycle
    exact ⟨hclosed.mono htriggers, hinner⟩

-- an event whose workflow emits it again
example : (checkEventConsumeCycles [("event.paid", "workflow.pay")]
    [("workflow.pay", ["event.paid"])]).map (·.map Diagnostic.subject) =
      some ["cycle event.paid -> workflow.pay -> event.paid"] := by
  decide +kernel

end Lnpl.Front.EventCycles
