import Mathlib.Data.List.Nodup
import Mathlib.Order.Lattice

/-!
# Keyset pagination

A listing served page by page: a page takes the first rows whose key is greater than the cursor,
and the next cursor is the key of the last row on the page.  The listing of each page may be another
one.

The pages of one listing are that listing exactly if at every cut the rows listed before it have
lesser keys than those listed after it (`flatten_follow_iff`).  Of listings that change, a row in
all of them is on one page, if every page is cut that way (`filter_flatten_follow`).
-/

namespace Lnpl.Lib.Keyset

variable {ρ κ : Type} [LinearOrder κ] {key : ρ → κ} {limit : Nat}

/-- The rows listed after the cursor. -/
def rest (key : ρ → κ) (after : Option κ) (listing : List ρ) : List ρ :=
  match after with
  | none => listing
  | some cursor => listing.filter fun row => cursor < key row

/-- The rows of a page. -/
def page (key : ρ → κ) (limit : Nat) (after : Option κ) (listing : List ρ) : List ρ :=
  (rest key after listing).take limit

/-- The cursor to the next page, `none` on the last one. -/
def next (key : ρ → κ) (limit : Nat) (after : Option κ) (listing : List ρ) : Option κ :=
  if limit < (rest key after listing).length then
    ((page key limit after listing).getLast?).map key
  else none

/-- The pages served from the cursor on, one of each listing; `none` if the listings run out before
the last page. -/
def follow (key : ρ → κ) (limit : Nat) : Option κ → List (List ρ) → Option (List (List ρ))
  | _, [] => none
  | after, listing :: listings =>
    match next key limit after listing with
    | none => some [page key limit after listing]
    | some cursor =>
      (follow key limit (some cursor) listings).map (page key limit after listing :: ·)

/-- At the cut behind the first `n` rows, the rows before it have lesser keys than those after it:
the last row before the cut has the greatest key of them, and all keys after it are greater. -/
def CutAt (key : ρ → κ) (n : Nat) (rows : List ρ) : Prop :=
  ∀ last ∈ (rows.take n).getLast?,
    (∀ row ∈ rows.take n, key row ≤ key last) ∧ ∀ row ∈ rows.drop n, key last < key row

/-- Every cut into pages is one between lesser and greater keys. -/
def CutsInOrder (key : ρ → κ) (limit : Nat) (rows : List ρ) : Prop :=
  ∀ i, 0 < i → i * limit < rows.length → CutAt key (i * limit) rows

/-- Every page that is not the last is cut in order. -/
def Steady (key : ρ → κ) (limit : Nat) : Option κ → List (List ρ) → Prop
  | _, [] => True
  | after, listing :: listings =>
    match next key limit after listing with
    | none => True
    | some cursor =>
      CutAt key limit (rest key after listing) ∧ Steady key limit (some cursor) listings

/-! ### One page -/

variable {after : Option κ} {listing rows : List ρ} {cursor : κ} {row last : ρ} {m : Nat}
  {pages : List (List ρ)}

theorem next_eq_none (h : (rest key after listing).length ≤ limit) :
    next key limit after listing = none :=
  if_neg (Nat.not_lt.mpr h)

/-- A page that is not the last has a last row, whose key is the next cursor. -/
theorem next_eq_some (hlimit : 0 < limit) (h : limit < (rest key after listing).length) :
    ∃ last, (page key limit after listing).getLast? = some last ∧
      last ∈ rest key after listing ∧ next key limit after listing = some (key last) := by
  have hne : page key limit after listing ≠ [] := by
    intro hnil
    have hlen := congrArg List.length hnil
    rw [page, List.length_take, List.length_nil] at hlen
    omega
  have hlast := List.getLast?_eq_some_getLast hne
  refine ⟨_, hlast, List.mem_of_mem_take (List.getLast_mem hne), ?_⟩
  rw [next, if_pos h, hlast]
  rfl

theorem mem_rest_some :
    row ∈ rest key (some cursor) listing ↔ row ∈ listing ∧ cursor < key row := by
  rw [rest, List.mem_filter, decide_eq_true_iff]

theorem mem_of_mem_rest (h : row ∈ rest key after listing) : row ∈ listing := by
  cases after with
  | none => exact h
  | some cursor => exact (mem_rest_some.mp h).1

/-- The rows after a later cursor, taken from those after an earlier one. -/
theorem rest_of_mem_rest (h : last ∈ rest key after listing) :
    rest key (some (key last)) listing =
      (rest key after listing).filter fun row => key last < key row := by
  cases after with
  | none => rfl
  | some cursor =>
    rw [rest, rest, List.filter_filter]
    refine List.filter_congr fun row _ => ?_
    have hlt := (mem_rest_some.mp h).2
    by_cases hrow : key last < key row
    · rw [decide_eq_true hrow, decide_eq_true (hlt.trans hrow), Bool.and_self]
    · rw [decide_eq_false hrow, Bool.false_and]

/-- What lies after the key of the last row before a cut in order. -/
theorem filter_of_cutAt {n : Nat} (hcut : CutAt key n rows)
    (hlast : (rows.take n).getLast? = some last) :
    rows.filter (fun row => key last < key row) = rows.drop n := by
  obtain ⟨hbefore, hafter⟩ := hcut last hlast
  conv_lhs => rw [← List.take_append_drop n rows]
  rw [List.filter_append, List.filter_eq_nil_iff.mpr, List.filter_eq_self.mpr, List.nil_append]
  · exact fun row hrow => decide_eq_true (hafter row hrow)
  · exact fun row hrow => by simpa using hbefore row hrow

/-! ### Following the cursors of one listing -/

/-- Each page leaves fewer rows. -/
theorem length_rest_lt (hmem : last ∈ rest key after listing) :
    (rest key (some (key last)) listing).length < (rest key after listing).length := by
  rw [rest_of_mem_rest hmem]
  refine List.length_filter_lt_length_iff_exists.mpr ⟨last, hmem, ?_⟩
  rw [decide_eq_true_iff]
  exact lt_irrefl _

/-- **Termination**: the pages of one listing come to an end. -/
theorem follow_replicate_isSome (hlimit : 0 < limit) (listing : List ρ) (after : Option κ) :
    ∃ m, (follow key limit after (List.replicate m listing)).isSome := by
  induction hn : (rest key after listing).length using Nat.strongRecOn generalizing after with
  | _ n ih =>
    by_cases hle : (rest key after listing).length ≤ limit
    · refine ⟨1, ?_⟩
      rw [List.replicate_one, follow, next_eq_none hle]
      rfl
    · obtain ⟨last, -, hmem, hnext⟩ := next_eq_some hlimit (Nat.lt_of_not_le hle)
      obtain ⟨m, hm⟩ := ih _ (hn ▸ length_rest_lt hmem) (some (key last)) rfl
      refine ⟨m + 1, ?_⟩
      rw [List.replicate_succ, follow, hnext, Option.isSome_map]
      exact hm

/-- The rows of all pages lie after the cursor. -/
theorem mem_rest_of_mem_follow (hlimit : 0 < limit)
    (h : follow key limit after (List.replicate m listing) = some pages)
    (hrow : row ∈ pages.flatten) : row ∈ rest key after listing := by
  induction m generalizing after pages with
  | zero => cases h
  | succ m ih =>
    rw [List.replicate_succ, follow] at h
    by_cases hle : (rest key after listing).length ≤ limit
    · rw [next_eq_none hle] at h
      obtain rfl := Option.some.inj h
      rw [List.flatten_cons, List.flatten_nil, List.append_nil] at hrow
      exact List.mem_of_mem_take hrow
    · obtain ⟨last, -, hmem, hnext⟩ := next_eq_some hlimit (Nat.lt_of_not_le hle)
      rw [hnext] at h
      obtain ⟨pages', hpages', rfl⟩ := Option.map_eq_some_iff.mp h
      rw [List.flatten_cons, List.mem_append] at hrow
      rcases hrow with hrow | hrow
      · exact List.mem_of_mem_take hrow
      · have hrest := ih hpages' hrow
        rw [rest_of_mem_rest hmem] at hrest
        exact (List.mem_filter.mp hrest).1

/-- The first rows after the cursor are served. -/
theorem page_sublist_of_follow (hlimit : 0 < limit)
    (h : follow key limit after (List.replicate m listing) = some pages)
    (hrow : (rest key after listing).head? = some row) : row ∈ pages.flatten := by
  cases m with
  | zero => cases h
  | succ m =>
    have hpage : row ∈ page key limit after listing := by
      obtain ⟨rows, hrows⟩ := List.head?_eq_some_iff.mp hrow
      obtain ⟨n, rfl⟩ := Nat.exists_eq_succ_of_ne_zero (Nat.pos_iff_ne_zero.mp hlimit)
      rw [page, hrows, List.take_succ_cons]
      exact List.mem_cons_self
    rw [List.replicate_succ, follow] at h
    cases hnext : next key limit after listing with
    | none =>
      rw [hnext] at h
      obtain rfl := Option.some.inj h
      exact List.mem_append_left _ hpage
    | some cursor =>
      rw [hnext] at h
      obtain ⟨pages', -, rfl⟩ := Option.map_eq_some_iff.mp h
      exact List.mem_append_left _ hpage

variable {before : List ρ} {p : ρ → Bool} {listings : List (List ρ)}

/-- Pages that serve the end of a listing, which are the rows after their cursor. -/
theorem rest_eq_of_follow (hlimit : 0 < limit) (hnodup : (before ++ rows).Nodup)
    (h : follow key limit (some cursor) (List.replicate m (before ++ rows)) = some pages)
    (hpages : pages.flatten = rows) : rest key (some cursor) (before ++ rows) = rows := by
  have hrows : ∀ row ∈ rows, cursor < key row := fun row hrow =>
    (mem_rest_some.mp (mem_rest_of_mem_follow hlimit h (hpages ▸ hrow))).2
  have hsplit : rest key (some cursor) (before ++ rows) =
      before.filter (fun row => cursor < key row) ++ rows := by
    rw [rest, List.filter_append]
    congr 1
    exact List.filter_eq_self.mpr fun row hrow => decide_eq_true (hrows row hrow)
  cases hbefore : before.filter (fun row => cursor < key row) with
  | nil => rw [hsplit, hbefore, List.nil_append]
  | cons row more =>
    -- a row before the cut would be served first, and once more
    have hserved : row ∈ rows := by
      rw [← hpages]
      refine page_sublist_of_follow hlimit h ?_
      rw [hsplit, hbefore]
      rfl
    have hrow : row ∈ before := (List.mem_filter.mp (hbefore ▸ List.mem_cons_self)).1
    exact absurd rfl ((List.nodup_append.mp hnodup).2.2 row hrow row hserved)

/-- The cut of a listing whose rows after the cursor are those behind the cut. -/
theorem cutAt_of_rest (hlast : before.getLast? = some last) (hnodup : (before ++ rows).Nodup)
    (h : rest key (some (key last)) (before ++ rows) = rows) :
    CutAt key before.length (before ++ rows) := by
  have hrows : ∀ row ∈ rows, key last < key row := by
    intro row hrow
    rw [← h] at hrow
    exact (mem_rest_some.mp hrow).2
  have hbefore : ∀ row ∈ before, key row ≤ key last := by
    intro row hrow
    by_contra hlt
    have hmem : row ∈ rows := by
      rw [← h]
      exact mem_rest_some.mpr ⟨List.mem_append_left _ hrow, not_le.mp hlt⟩
    exact (List.nodup_append.mp hnodup).2.2 row hrow row hmem rfl
  intro last' hlast'
  rw [List.take_left, hlast] at hlast'
  obtain rfl := Option.some.inj hlast'
  rw [List.take_left, List.drop_left]
  exact ⟨hbefore, hrows⟩

/-- The pages from a cursor on, behind which the rows not yet served lie. -/
theorem flatten_follow_iff_cuts (hlimit : 0 < limit) {before rows : List ρ} {i m : Nat}
    {after : Option κ} {pages : List (List ρ)} (hnodup : (before ++ rows).Nodup)
    (hlen : before.length = i * limit) (hrest : rest key after (before ++ rows) = rows)
    (h : follow key limit after (List.replicate m (before ++ rows)) = some pages) :
    pages.flatten = rows ↔
      ∀ j, i < j → j * limit < (before ++ rows).length →
        CutAt key (j * limit) (before ++ rows) := by
  induction m generalizing before rows i after pages with
  | zero => cases h
  | succ m ih =>
    rw [List.replicate_succ, follow] at h
    by_cases hle : rows.length ≤ limit
    · rw [next_eq_none (by rw [hrest]; exact hle)] at h
      obtain rfl := Option.some.inj h
      constructor
      · intro _ j hij hj
        have hmul : (i + 1) * limit ≤ j * limit := Nat.mul_le_mul_right _ hij
        rw [List.length_append, hlen] at hj
        rw [Nat.add_mul, Nat.one_mul] at hmul
        omega
      · intro _
        rw [List.flatten_cons, List.flatten_nil, List.append_nil, page, hrest,
          List.take_of_length_le hle]
    · have hlt : limit < (rest key after (before ++ rows)).length := by
        rw [hrest]
        exact Nat.lt_of_not_le hle
      obtain ⟨last, hlast, hmem, hnext⟩ := next_eq_some hlimit hlt
      rw [hnext] at h
      obtain ⟨pages', hpages', rfl⟩ := Option.map_eq_some_iff.mp h
      rw [page, hrest] at hlast ⊢
      have hsplit : before ++ rows = (before ++ rows.take limit) ++ rows.drop limit := by
        rw [List.append_assoc, List.take_append_drop]
      have hlen' : (before ++ rows.take limit).length = (i + 1) * limit := by
        rw [List.length_append, hlen, List.length_take, Nat.add_mul, Nat.one_mul]
        omega
      have hlast' : (before ++ rows.take limit).getLast? = some last := by
        rw [List.getLast?_append, hlast]
        rfl
      have hserved : (rows.take limit :: pages').flatten = rows ↔
          pages'.flatten = rows.drop limit := by
        conv_lhs =>
          rhs
          rw [← List.take_append_drop limit rows]
        rw [List.flatten_cons, List.append_cancel_left_eq]
      rw [hserved]
      rw [hsplit] at hnodup hpages' ⊢
      constructor
      · intro hflat j hij hj
        have hrest' := rest_eq_of_follow hlimit hnodup hpages' hflat
        rcases Nat.lt_or_eq_of_le hij with hlt | rfl
        · exact (ih hnodup hlen' hrest' hpages').mp hflat j hlt hj
        · rw [← hlen']
          exact cutAt_of_rest hlast' hnodup hrest'
      · intro hcuts
        have hcut := hcuts (i + 1) (Nat.lt_succ_self i) (by
          rw [← hlen', ← hsplit]
          simp only [List.length_append, List.length_take]
          omega)
        have hrest' : rest key (some (key last)) ((before ++ rows.take limit) ++ rows.drop limit) =
            rows.drop limit := by
          rw [← hlen'] at hcut
          rw [rest, filter_of_cutAt hcut (by rw [List.take_left]; exact hlast'), List.drop_left]
        exact (ih hnodup hlen' hrest' hpages').mpr fun j hij hj =>
          hcuts j (Nat.lt_of_succ_lt hij) hj

/-- **One listing**: its pages are the listing, each row once and in order, exactly if every cut is
one between lesser and greater keys. -/
theorem flatten_follow_iff (hlimit : 0 < limit) (hnodup : listing.Nodup)
    (h : follow key limit none (List.replicate m listing) = some pages) :
    pages.flatten = listing ↔ CutsInOrder key limit listing := by
  have hlen : ([] : List ρ).length = 0 * limit := by rw [Nat.zero_mul, List.length_nil]
  exact @flatten_follow_iff_cuts _ _ _ _ _ hlimit [] listing _ _ _ _ hnodup hlen rfl h

/-! ### Listings that change -/

/-- A row that lies before the cursor is on none of the next pages. -/
theorem filter_flatten_follow_nil (hlimit : 0 < limit)
    (h : follow key limit (some cursor) listings = some pages)
    (hrow : ∀ listing ∈ listings, listing.filter p = [row]) (hbefore : key row ≤ cursor) :
    pages.flatten.filter p = [] := by
  induction listings generalizing cursor pages with
  | nil => cases h
  | cons listing listings ih =>
    have hpage : (page key limit (some cursor) listing).filter p = [] := by
      refine List.filter_eq_nil_iff.mpr fun other hother hp => ?_
      obtain ⟨hmem, hlt⟩ := mem_rest_some.mp (List.mem_of_mem_take hother)
      have heq : other ∈ listing.filter p := List.mem_filter.mpr ⟨hmem, hp⟩
      rw [hrow listing List.mem_cons_self, List.mem_singleton] at heq
      rw [heq] at hlt
      exact not_lt.mpr hbefore hlt
    rw [follow] at h
    by_cases hle : (rest key (some cursor) listing).length ≤ limit
    · rw [next_eq_none hle] at h
      obtain rfl := Option.some.inj h
      rw [List.flatten_cons, List.flatten_nil, List.append_nil, hpage]
    · obtain ⟨last, -, hmem, hnext⟩ := next_eq_some hlimit (Nat.lt_of_not_le hle)
      rw [hnext] at h
      obtain ⟨pages', hpages', rfl⟩ := Option.map_eq_some_iff.mp h
      have hlater : cursor < key last := (mem_rest_some.mp hmem).2
      rw [List.flatten_cons, List.filter_append, hpage, List.nil_append]
      exact ih hpages' (fun other hother => hrow other (List.mem_cons_of_mem _ hother))
        (hbefore.trans hlater.le)

/-- **Listings that change**: a row that every page's listing holds is on one page, once, if the
pages are cut in order. -/
theorem filter_flatten_follow (hlimit : 0 < limit)
    (h : follow key limit after listings = some pages)
    (hrow : ∀ listing ∈ listings, listing.filter p = [row])
    (hsteady : Steady key limit after listings) (hafter : ∀ cursor ∈ after, cursor < key row) :
    pages.flatten.filter p = [row] := by
  induction listings generalizing after pages with
  | nil => cases h
  | cons listing listings ih =>
    have hlisting : listing.filter p = [row] := hrow listing List.mem_cons_self
    have hrest : (rest key after listing).filter p = [row] := by
      cases after with
      | none => exact hlisting
      | some cursor =>
        rw [rest, List.filter_filter]
        rw [← hlisting]
        refine List.filter_congr fun other hother => ?_
        cases hp : p other with
        | false => rw [Bool.false_and]
        | true =>
          have heq : other ∈ listing.filter p := List.mem_filter.mpr ⟨hother, hp⟩
          rw [hlisting, List.mem_singleton] at heq
          rw [Bool.true_and, decide_eq_true_iff, heq]
          exact hafter cursor rfl
    rw [follow] at h
    rw [Steady] at hsteady
    by_cases hle : (rest key after listing).length ≤ limit
    · rw [next_eq_none hle] at h
      obtain rfl := Option.some.inj h
      rw [List.flatten_cons, List.flatten_nil, List.append_nil, page,
        List.take_of_length_le hle, hrest]
    · obtain ⟨last, hlast, hmem, hnext⟩ := next_eq_some hlimit (Nat.lt_of_not_le hle)
      rw [hnext] at h hsteady
      obtain ⟨pages', hpages', rfl⟩ := Option.map_eq_some_iff.mp h
      obtain ⟨hcut, hsteady⟩ := hsteady
      obtain ⟨hbefore, hbehind⟩ := hcut last hlast
      have hrows : ∀ other ∈ listings, other.filter p = [row] :=
        fun other hother => hrow other (List.mem_cons_of_mem _ hother)
      rw [List.flatten_cons, List.filter_append]
      rw [← List.take_append_drop limit (rest key after listing), List.filter_append,
        List.append_eq_singleton_iff] at hrest
      rcases hrest with ⟨hpage, hdrop⟩ | ⟨hpage, hdrop⟩
      · -- the row is left for the next pages
        have hmem : row ∈ (rest key after listing).drop limit :=
          List.mem_of_mem_filter (hdrop ▸ List.mem_cons_self)
        rw [page, hpage, List.nil_append]
        refine ih hpages' hrows hsteady fun cursor hcursor => ?_
        rw [← Option.some.inj hcursor]
        exact hbehind row hmem
      · -- the row is served here
        have hmem : row ∈ (rest key after listing).take limit :=
          List.mem_of_mem_filter (hpage ▸ List.mem_cons_self)
        rw [page, hpage, filter_flatten_follow_nil hlimit hpages' hrows (hbefore row hmem),
          List.append_nil]

end Lnpl.Lib.Keyset
