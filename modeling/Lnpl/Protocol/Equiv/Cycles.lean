import Lnpl.Lib.Assignments
import Lnpl.Lib.Results
import Lnpl.Protocol.Ownership

/-!
# Correctness of `ownershipCycle`

The walk over the `children` is a depth-first search: its colours, its path and its stack keep the
invariant of one (`Walking`), and every turn takes from the load that is left, so that the fuel
suffices.  What is returned is a closed walk, or nothing where there is none
(`ownershipCycle_spec`).
-/

namespace Lnpl.Protocol

open Lnpl.Lib Lnpl.Lib.Py
open Lnpl.Lib.DepthFirst (Searching ClosedWalk whiteTurns stackTurns whiteTurns_le)

variable {m : NodeMap}

/-! ### The nodes of a map -/

/-- A value with a key. -/
def valueOf : Key → Value
  | .none => .none
  | .num value => .float value ""
  | .str s => .str s

@[simp] theorem hash_valueOf (key : Key) : (valueOf key).hash = .ok key := by
  cases key <;> rfl

theorem valueOf_injective : Function.Injective valueOf := by
  intro key key' h
  have hhash := congrArg Value.hash h
  rw [hash_valueOf, hash_valueOf] at hhash
  exact Except.ok.inj hhash

variable {nodes : Nodes} {entry : Key × Node}

theorem lookup_isSome_iff_mem {key : Key} :
    (nodes.lookup key).isSome ↔ key ∈ nodes.map Prod.fst := by
  rw [List.lookup_isSome_iff, List.mem_map]
  exact exists_congr fun p => and_congr_right fun _ => beq_iff_eq.trans eq_comm

theorem childrenOf_eq {node : Node} {ids : List String}
    (h : (field? node "children").getD (.list []) = .list (ids.map .str)) :
    childrenOf node = .ok (((childTexts node).map Key.str).map valueOf) := by
  have htexts : childTexts node = ids := by
    rw [childTexts, h]
    dsimp only
    rw [List.filterMap_map]
    exact List.filterMap_some
  rw [childrenOf, h, htexts, List.map_map]
  rfl

theorem NodeMap.childrenOf_node (m : NodeMap) (h : entry ∈ m.nodes) :
    Protocol.childrenOf entry.2 = .ok ((m.childrenOf entry.1).map valueOf) := by
  obtain ⟨ids, hids⟩ := m.children entry h
  rw [childrenOf_eq hids, NodeMap.childrenOf, lookup_of_nodup m.nodup h]
  rfl

theorem NodeMap.lookup_eq_none (m : NodeMap) {key : Key} :
    m.nodes.lookup key = none ↔ key ∉ m.ids := by
  rw [NodeMap.ids, ← lookup_isSome_iff_mem, Option.not_isSome_iff_eq_none]

theorem NodeMap.exists_node (m : NodeMap) {key : Key} (h : key ∈ m.ids) :
    ∃ node, (key, node) ∈ m.nodes ∧ m.nodes.lookup key = some node := by
  obtain ⟨entry, hentry, rfl⟩ := List.mem_map.mp h
  exact ⟨entry.2, hentry, lookup_of_nodup m.nodup hentry⟩

/-! ### The load of a search -/

/-- The turns that the nodes still to be entered will take. -/
def whiteLoad (m : NodeMap) (colour : Key → Colour) (ids : List Key) : ℕ :=
  whiteTurns m.childrenOf (fun id => decide (colour id = .white)) ids

/-- A node that is entered takes its part of the load. -/
theorem whiteLoad_enter {colour : Key → Colour} {ids : List Key} (hnodup : ids.Nodup) {id : Key}
    (hid : id ∈ ids) (hwhite : colour id = .white) :
    whiteLoad m (fun key => if key = id then .grey else colour key) ids +
      ((m.childrenOf id).length + 1) = whiteLoad m colour ids :=
  DepthFirst.whiteTurns_paint_enter (by decide) hnodup hid hwhite

/-! ### The walk from one root -/

/-- The colours, the path and the stack are those of one search. -/
structure Walking (m : NodeMap) (colour : Key → Colour) (path : List Key)
    (stack : List (Key × List Key)) : Prop where
  searching : Searching m.childrenOf (· ∈ m.ids) (fun key => colour key = .black) stack
  path : path = (stack.map Prod.fst).reverse
  grey : ∀ key, colour key = .grey ↔ key ∈ stack.map Prod.fst

/-- Between two searches: nothing is grey, and no walk from a black node goes on for ever. -/
structure Settled (m : NodeMap) (colour : Key → Colour) : Prop where
  grey : ∀ key, colour key ≠ .grey
  finished : ∀ key, colour key = .black → Acc (fun a b => m.Owns b a) key

/-- What a search may end with: colours that are settled, with what was black or on the stack
black, or a closed walk. -/
def Ends (m : NodeMap) (colour : Key → Colour) (stack : List (Key × List Key)) :
    Option ((Key → Colour) ⊕ List Key) → Prop
  | some (.inl colour') => Settled m colour' ∧
      ∀ key, colour key = .black ∨ key ∈ stack.map Prod.fst → colour' key = .black
  | some (.inr cycle) => ClosedWalk m.Owns cycle
  | none => False

/-- A stack as the walk has it. -/
def stackOf (stack : List (Key × List Key)) : List (Key × List Value) :=
  stack.map fun frame => (frame.1, frame.2.map valueOf)

variable {colour : Key → Colour} {path : List Key} {stack : List (Key × List Key)} {n key : Key}
  {kids : List Key}

theorem Walking.finish (h : Walking m colour path ((n, []) :: stack)) :
    Walking m (fun k => if k = n then .black else colour k) path.dropLast stack where
  searching := by
    rw [DepthFirst.painted_eq colour n .black]
    exact h.searching.finish
  path := by
    rw [h.path, List.map_cons, List.reverse_cons, List.dropLast_concat]
  grey := DepthFirst.painted_iff_mem (by decide) h.grey (List.nodup_cons.mp h.searching.nodup).1

theorem Walking.skip (h : Walking m colour path ((n, key :: kids) :: stack))
    (hkey : key ∈ m.ids → colour key = .black) :
    Walking m colour path ((n, kids) :: stack) :=
  ⟨h.searching.skip hkey, h.path, h.grey⟩

theorem Walking.descend (h : Walking m colour path ((n, key :: kids) :: stack))
    (hkey : key ∈ m.ids) (hwhite : colour key = .white) :
    Walking m (fun k => if k = key then .grey else colour k) (path ++ [key])
      ((key, m.childrenOf key) :: (n, kids) :: stack) where
  searching := by
    have hgrey : key ∉ n :: stack.map Prod.fst := by
      intro hmem
      rw [(h.grey key).mpr hmem] at hwhite
      cases hwhite
    rw [DepthFirst.painted_eq_of_ne (by decide) (by rw [hwhite]; decide)]
    exact h.searching.descend hkey (by rw [hwhite]; decide) hgrey
  path := by rw [h.path]; simp
  grey := DepthFirst.painted_iff_mem_cons h.grey key

/-- **The walk from one root** ends, with settled colours or with a closed walk. -/
theorem walk_spec {fuel : ℕ} (h : Walking m colour path stack)
    (hload : whiteLoad m colour m.ids + stackTurns stack < fuel) :
    ∃ result, walk m.nodes fuel colour path (stackOf stack) = .ok result ∧
      Ends m colour stack result := by
  induction fuel generalizing colour path stack with
  | zero => exact absurd hload (Nat.not_lt_zero _)
  | succ fuel ih =>
  rcases stack with _ | ⟨⟨n, _ | ⟨key, kids⟩⟩, stack⟩
  · refine ⟨_, rfl, ⟨fun k hk => ?_, h.searching.finished⟩, fun k hk => ?_⟩
    · exact absurd ((h.grey k).mp hk) List.not_mem_nil
    · exact hk.resolve_right List.not_mem_nil
  · -- Every child of the node on the top has been searched.
    have hsame : whiteLoad m (fun k => if k = n then .black else colour k) m.ids =
        whiteLoad m colour m.ids := by
      have hgrey := (h.grey n).mpr List.mem_cons_self
      exact DepthFirst.whiteTurns_paint (by decide) (by rw [hgrey]; decide)
    rw [stackTurns] at hload
    obtain ⟨result, hwalk, hends⟩ := ih h.finish (by rw [hsame]; omega)
    refine ⟨result, hwalk, ?_⟩
    rcases result with _ | colour' | cycle
    · exact hends
    · refine ⟨hends.1, fun k hk => hends.2 k ?_⟩
      by_cases hkn : k = n
      · exact .inl (if_pos hkn)
      · dsimp only
        rw [if_neg hkn]
        exact hk.imp_right fun hmem => (List.mem_cons.mp hmem).resolve_left hkn
    · exact hends
  · have hshorter : whiteLoad m colour m.ids + stackTurns ((n, kids) :: stack) < fuel := by
      simp only [stackTurns, List.length_cons] at hload ⊢
      omega
    rw [stackOf, List.map_cons, List.map_cons, walk, hash_valueOf,
      show (Except.ok key : Except Error Key) = pure key from rfl, pure_bind]
    cases hlookup : m.nodes.lookup key with
    | none => exact ih (h.skip fun hkey => absurd hkey (m.lookup_eq_none.mp hlookup)) hshorter
    | some child =>
      have hkey : key ∈ m.ids := lookup_isSome_iff_mem.mp (by rw [hlookup]; rfl)
      cases hcolour : colour key with
      | black => exact ih (h.skip fun _ => hcolour) hshorter
      | grey =>
        refine ⟨_, rfl, ?_⟩
        rw [h.path]
        exact h.searching.closedWalk ((h.grey key).mp hcolour)
      | white =>
        obtain ⟨node, hnode, hlookup'⟩ := m.exists_node hkey
        cases hlookup.symm.trans hlookup'
        have hgrandchildren : childrenOf child = .ok ((m.childrenOf key).map valueOf) :=
          m.childrenOf_node hnode
        have henter := whiteLoad_enter (m := m) m.nodup hkey hcolour
        have hload' : whiteLoad m (fun k => if k = key then .grey else colour k) m.ids +
            stackTurns ((key, m.childrenOf key) :: (n, kids) :: stack) < fuel := by
          simp only [stackTurns] at hshorter ⊢
          rw [NodeMap.ids] at hshorter ⊢
          simp only [stackTurns, List.length_cons, NodeMap.ids] at hload
          omega
        obtain ⟨result, hwalk, hends⟩ := ih (h.descend hkey hcolour) hload'
        refine ⟨result, ?_, ?_⟩
        · dsimp only
          rw [hgrandchildren]
          exact hwalk
        · rcases result with _ | colour' | cycle
          · exact hends
          · refine ⟨hends.1, fun k hk => hends.2 k ?_⟩
            rcases hk with hk | hk
            · left
              have hne : k ≠ key := by
                rintro rfl
                rw [hk] at hcolour
                cases hcolour
              exact (if_neg hne).trans hk
            · exact .inr (List.mem_cons_of_mem key hk)
          · exact hends

/-! ### All roots -/

/-- A search may start wherever a node is white. -/
theorem Settled.walking (h : Settled m colour) {root : Key} (hroot : root ∈ m.ids)
    (hwhite : colour root = .white) :
    Walking m (fun k => if k = root then .grey else colour k) [root]
      [(root, m.childrenOf root)] where
  searching := by
    rw [DepthFirst.painted_eq_of_ne (by decide) (by rw [hwhite]; decide)]
    exact Searching.start h.finished hroot (by rw [hwhite]; decide)
  path := rfl
  grey := DepthFirst.painted_iff_mem_cons (fun k => by simp [h.grey k]) root

/-- The fuel of a walk is the load of all nodes, and one turn more. -/
theorem walkFuel_eq (m : NodeMap) :
    walkFuel m.nodes = (m.ids.map fun id => (m.childrenOf id).length + 1).sum + 1 := by
  suffices h : ∀ load : Key × Node → ℕ,
      (∀ entry children, childrenOf entry.2 = .ok children → load entry = children.length + 1) →
      ∀ nodes : Nodes, (∀ entry ∈ nodes, entry ∈ m.nodes) →
        (nodes.map load).sum =
          ((nodes.map Prod.fst).map fun id => (m.childrenOf id).length + 1).sum by
    refine congrArg (· + 1) (h _ (fun entry children hchildren => ?_) m.nodes fun _ => id)
    rw [hchildren]
  intro load hload nodes hnodes
  induction nodes with
  | nil => rfl
  | cons entry nodes ih =>
    have hrest := ih fun e he => hnodes e (List.mem_cons_of_mem entry he)
    have hentry := hload _ _ (m.childrenOf_node (hnodes entry List.mem_cons_self))
    rw [List.map_cons, List.sum_cons, hrest, hentry, List.map_cons, List.map_cons, List.sum_cons,
      List.length_map]

/-- The loop over the roots ends, with nothing if every root is black then. -/
theorem walkRoots_spec {roots : List Key} (hroots : ∀ root ∈ roots, root ∈ m.ids)
    (h : Settled m colour) :
    ∃ cycle, walkRoots m.nodes colour roots = .ok cycle ∧
      ((cycle = [] ∧ ∀ key, colour key = .black ∨ key ∈ roots →
        Acc (fun a b => m.Owns b a) key) ∨ ClosedWalk m.Owns cycle) := by
  induction roots generalizing colour with
  | nil => exact ⟨[], rfl, .inl ⟨rfl, fun key hkey =>
      h.finished key (hkey.resolve_right List.not_mem_nil)⟩⟩
  | cons root roots ih =>
    have hrest : ∀ r ∈ roots, r ∈ m.ids := fun r hr => hroots r (List.mem_cons_of_mem root hr)
    have hroot := hroots root List.mem_cons_self
    cases hcolour : colour root with
    | grey => exact absurd hcolour (h.grey root)
    | black =>
      obtain ⟨cycle, hwalk, hcycle⟩ := ih hrest h
      refine ⟨cycle, ?_, hcycle.imp_left fun hnone => ⟨hnone.1, fun key hkey => ?_⟩⟩
      · rw [walkRoots, if_pos (by rw [hcolour]; decide), hwalk]
      · rcases hkey with hkey | hkey
        · exact hnone.2 key (.inl hkey)
        · rcases List.mem_cons.mp hkey with rfl | hkey
          · exact hnone.2 key (.inl hcolour)
          · exact hnone.2 key (.inr hkey)
    | white =>
      obtain ⟨node, hnode, hlookup⟩ := m.exists_node hroot
      have hchildren : childrenOf node = .ok ((m.childrenOf root).map valueOf) :=
        m.childrenOf_node hnode
      have hload : whiteLoad m (fun k => if k = root then .grey else colour k) m.ids +
          stackTurns [(root, m.childrenOf root)] < walkFuel m.nodes := by
        have henter := @whiteLoad_enter m colour m.ids m.nodup root hroot hcolour
        have hle : whiteLoad m colour m.ids ≤ _ := whiteTurns_le _ m.ids
        rw [walkFuel_eq]
        simp only [stackTurns, NodeMap.ids] at henter hle ⊢
        omega
      obtain ⟨result, hresult, hends⟩ := walk_spec (h.walking hroot hcolour) hload
      have hstep : walkRoots m.nodes colour (root :: roots) =
          match result with
          | some (.inl colour') => walkRoots m.nodes colour' roots
          | some (.inr cycle) => .ok cycle
          | none => .ok [] := by
        rw [walkRoots, if_neg (by rw [hcolour]; exact not_not.mpr rfl), hlookup, Option.getD_some,
          hchildren]
        have hwalk : walk m.nodes (walkFuel m.nodes) (fun k => if k = root then .grey else colour k)
            [root] [(root, (m.childrenOf root).map valueOf)] = .ok result := hresult
        simp only [bind, Except.bind, hwalk]
        cases result with
        | none => rfl
        | some found => cases found <;> rfl
      rw [hstep]
      match result, hends with
      | some (.inr cycle), hcycle => exact ⟨cycle, rfl, .inr hcycle⟩
      | some (.inl colour'), ⟨hsettled, hblack⟩ =>
        obtain ⟨cycle, hwalk, hcycle⟩ := ih hrest hsettled
        refine ⟨cycle, hwalk, hcycle.imp_left fun hnone => ⟨hnone.1, fun key hkey => ?_⟩⟩
        rcases hkey with hkey | hkey
        · refine hnone.2 key (.inl (hblack key (.inl ?_)))
          have hne : key ≠ root := by
            rintro rfl
            rw [hkey] at hcolour
            cases hcolour
          exact (if_neg hne).trans hkey
        · rcases List.mem_cons.mp hkey with rfl | hkey
          · exact hnone.2 key (.inl (hblack key (.inr List.mem_cons_self)))
          · exact hnone.2 key (.inr hkey)

/-! ### Sorted ids -/

theorem textKeys?_map (texts : List String) : textKeys? (texts.map Key.str) = some texts := by
  induction texts with
  | nil => rfl
  | cons s texts ih =>
    rw [textKeys?] at ih ⊢
    rw [List.map_cons, List.mapM_cons, ih]
    rfl

/-- Texts are sorted. -/
theorem sortKeys_texts (texts : List String) :
    ∃ sorted : List String, sortKeys (texts.map Key.str) = .ok (sorted.map Key.str) ∧
      sorted.Perm texts := by
  match texts with
  | [] => exact ⟨[], rfl, .refl _⟩
  | [s] => exact ⟨[s], rfl, .refl _⟩
  | s :: s' :: texts =>
    refine ⟨sortTexts (s :: s' :: texts), ?_, List.perm_insertionSort _ _⟩
    have htexts := textKeys?_map (s :: s' :: texts)
    rw [List.map_cons, List.map_cons] at htexts ⊢
    rw [sortKeys, htexts]
    · exact nofun
    · exact nofun

theorem exists_texts {keys : List Key} (h : ∀ key ∈ keys, ∃ s, key = .str s) :
    ∃ texts : List String, keys = texts.map Key.str := by
  induction keys with
  | nil => exact ⟨[], rfl⟩
  | cons key keys ih =>
    obtain ⟨s, rfl⟩ := h key List.mem_cons_self
    obtain ⟨texts, rfl⟩ := ih fun k hk => h k (List.mem_cons_of_mem _ hk)
    exact ⟨s :: texts, rfl⟩

theorem NodeMap.id_text (m : NodeMap) : ∀ key ∈ m.ids, ∃ s, key = .str s := by
  intro key hkey
  obtain ⟨entry, hentry, rfl⟩ := List.mem_map.mp hkey
  exact (m.carried entry hentry).imp fun _ => And.left

/-- **Ownership cycles.** The search for a cycle ends, with nothing iff the children graph has no
closed walk, and otherwise with one. -/
theorem ownershipCycle_spec (m : NodeMap) :
    ∃ cycle, ownershipCycle m.nodes = .ok cycle ∧
      (cycle = [] ↔ ∀ walk, ¬ ClosedWalk m.Owns walk) ∧
      (cycle ≠ [] → ClosedWalk m.Owns cycle) := by
  obtain ⟨texts, htexts⟩ := exists_texts m.id_text
  obtain ⟨sorted, hsorted, hperm⟩ := sortKeys_texts texts
  replace hperm := hperm.map Key.str
  rw [← htexts] at hsorted hperm
  have hstart : Settled m (fun _ => Colour.white) := ⟨fun _ => nofun, fun _ => nofun⟩
  obtain ⟨cycle, hwalk, hcycle⟩ := walkRoots_spec (fun r hr => hperm.mem_iff.mp hr) hstart
  refine ⟨cycle, ?_, ?_, ?_⟩
  · rw [NodeMap.ids] at hsorted
    rw [ownershipCycle, hsorted]
    exact hwalk
  · rcases hcycle with ⟨rfl, hacc⟩ | hclosed
    · refine ⟨fun _ walk => ?_, fun _ => rfl⟩
      exact DepthFirst.not_closedWalk
        (fun key hkey => hacc key (.inr (hperm.mem_iff.mpr hkey))) walk
    · refine ⟨?_, fun hnone => absurd hclosed (hnone cycle)⟩
      rintro rfl
      obtain ⟨n, rest, hwalk, -⟩ := hclosed
      cases hwalk
  · intro hne
    rcases hcycle with ⟨hnil, -⟩ | hclosed
    · exact absurd hnil hne
    · exact hclosed

end Lnpl.Protocol
