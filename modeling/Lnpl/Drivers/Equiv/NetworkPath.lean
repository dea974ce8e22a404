import Lnpl.Drivers.NetworkPath
import Lnpl.Lib.DotSegments

/-!
# The shape of an assembled path

An argument of a path is text of its segment: the segments are those of the template, the encoded
arguments in the places, and dot-segment removal takes none that it leaves in the template.  So it
is iff no argument has a lone surrogate, no empty argument brings a `{` and a `}` of the template
together in front of a place that is still to be taken, and no argument makes its segment `.` or
`..` where something up to it stays (`path_shape_iff`).
-/

namespace Lnpl.Drivers

open Front (PathTemplate countPlaceholders)
open Lib (Percent.quote Percent.unquote Percent.Scalar Placeholders.cut Placeholders.fill
  Placeholders.fillChunks Placeholders.replaceAll Placeholders.marks Placeholders.InPlace
  DotSegments.Kind DotSegments.Removed DotSegments.Changed DotSegments.Becomes)
open Lib.JsonText (Text codes)

/-! ### Segments -/

/-- No character that a query or a fragment begins with. -/
def inPath (code : ℕ) : Bool := code != '?'.toNat && code != '#'.toNat

/-- The path of a request target: what is in front of its query. -/
def pathPart (target : Text) : Text := target.takeWhile inPath

/-- The segments behind the first `/`. -/
def pathSegments (target : Text) : List Text := ((pathPart target).splitOn '/'.toNat).tail

/-- What dot-segment removal makes of a segment. -/
def segmentKind (segment : Text) : DotSegments.Kind :=
  if segment = codes "." then .here else if segment = codes ".." then .up else .name

def segmentKinds (segments : List Text) : List DotSegments.Kind := segments.map segmentKind

/-- Each segment takes as many of the texts as it has placeholders. -/
def filledSegments (segments texts : List Text) : List Text :=
  Placeholders.fillChunks '\x7b'.toNat '\x7d'.toNat segments texts

/-- Dot-segment removal takes the segment at a position out of the path. -/
def RemovedFrom (target : Text) (i : ℕ) : Prop :=
  DotSegments.Removed (segmentKinds (pathSegments target)) i

/-- The encodings of the texts, each of which decodes to its text. -/
def Encodes (texts pieces : List Text) : Prop :=
  List.Forall₂ (fun text piece => Percent.quote text = some piece ∧
    Percent.unquote piece = some text) texts pieces

/-- The path has the segments of the template, the encoded texts in the places of its placeholders,
and no more of them are removed. -/
structure ShapeKept (template : Text) (texts : List Text) (path : Text) : Prop where
  segments : ∃ pieces, Encodes texts pieces ∧
    path.splitOn '/'.toNat = filledSegments (template.splitOn '/'.toNat) pieces
  removal : ∀ i, RemovedFrom path i → RemovedFrom template i

/-- The texts leave the shape of the template as it is. -/
structure KeepsShape (template : Text) (texts : List Text) : Prop where
  scalar : ∀ text ∈ texts, Percent.Scalar text
  inPlace : Placeholders.InPlace '\x7b'.toNat '\x7d'.toNat template
    (texts.map fun text => (Percent.quote text).getD [])
  dots : ∀ p, DotSegments.Changed (segmentKinds (pathSegments template))
      (segmentKinds (filledSegments (pathSegments template) texts)) p →
    ∀ j ≤ p, RemovedFrom template j

/-! ### Encodings -/

variable {texts pieces : List Text}

theorem encodes_of_scalar (h : ∀ text ∈ texts, Percent.Scalar text) :
    Encodes texts (texts.map fun text => (Percent.quote text).getD []) := by
  induction texts with
  | nil => exact .nil
  | cons text texts ih =>
    have hsome := Lib.Percent.quote_isSome_iff.mpr (h text List.mem_cons_self)
    obtain ⟨piece, hpiece⟩ := Option.isSome_iff_exists.mp hsome
    refine .cons ?_ (ih fun other hother => h other (List.mem_cons_of_mem _ hother))
    dsimp only
    rw [hpiece, Option.getD_some]
    exact ⟨rfl, Lib.Percent.unquote_of_quote hpiece⟩

section

variable (h : Encodes texts pieces)
include h

theorem Encodes.eq_map : pieces = texts.map fun text => (Percent.quote text).getD [] := by
  induction h with
  | nil => rfl
  | cons hpiece _ ih => rw [List.map_cons, ← ih, hpiece.1, Option.getD_some]

theorem Encodes.scalar : ∀ text ∈ texts, Percent.Scalar text := by
  induction h with
  | nil => exact nofun
  | cons hpiece _ ih =>
    rw [List.forall_mem_cons]
    exact ⟨Lib.Percent.quote_isSome_iff.mp (Option.isSome_of_eq_some hpiece.1), ih⟩

/-- A reserved character is in no encoding. -/
theorem Encodes.not_mem {code : ℕ} (hreserved : Lib.Percent.alwaysSafe code = false)
    (hpercent : code ≠ '%'.toNat) :
    ∀ piece ∈ pieces, code ∉ piece := by
  induction h with
  | nil => exact nofun
  | cons hpiece _ ih =>
    rw [List.forall_mem_cons]
    refine ⟨fun hmem => ?_, ih⟩
    rcases Lib.Percent.safe_of_quote hpiece.1 code hmem with hsafe | heq
    · rw [hreserved] at hsafe
      cases hsafe
    · exact hpercent heq

theorem Encodes.drop (n : ℕ) :
    Encodes (texts.drop n) (pieces.drop n) := List.forall₂_drop n h

end

/-- `_assemble_path` puts the encodings in one after the other. -/
theorem assemblePath_of_encodes {α : Type} {str : α → Text} {args : List α} {template : Text}
    (h : Encodes (args.map str) pieces) :
    assemblePath str template args =
      .ok (Placeholders.replaceAll '\x7b'.toNat '\x7d'.toNat template pieces) := by
  induction args generalizing template pieces with
  | nil =>
    cases h
    rfl
  | cons arg args ih =>
    cases h with
    | cons hpiece htail =>
      rw [assemblePath, List.foldlM_cons, hpiece.1]
      exact ih htail

/-! ### The template -/

theorem marks_codes (chars : List Char) :
    Placeholders.marks '\x7b'.toNat '\x7d'.toNat (chars.map Char.toNat) =
      countPlaceholders chars := by
  have hinj (ch : Char) (other : Char) : ch.toNat = other.toNat ↔ ch = other :=
    ⟨Char.toNat_inj.mp, congrArg Char.toNat⟩
  fun_induction countPlaceholders chars with
  | case1 chars ih =>
    rw [List.map_cons, List.map_cons, Placeholders.marks, if_pos ⟨rfl, rfl⟩, ih]
  | case2 ch chars hmark ih =>
    cases chars with
    | nil => rfl
    | cons next chars =>
      have hne : ¬(ch.toNat = '\x7b'.toNat ∧ next.toNat = '\x7d'.toNat) := by
        rw [hinj, hinj]
        rintro ⟨rfl, rfl⟩
        exact hmark chars rfl rfl
      rw [List.map_cons, List.map_cons, Placeholders.marks, if_neg hne]
      exact ih
  | case3 => rfl

variable {template : Text}

theorem pathPart_fill (h : Encodes texts pieces) :
    pathPart (Placeholders.fill '\x7b'.toNat '\x7d'.toNat template pieces) =
      Placeholders.fill '\x7b'.toNat '\x7d'.toNat (pathPart template) pieces := by
  apply Lib.Placeholders.takeWhile_fill
  · rfl
  · rfl
  · intro piece hpiece code hcode
    have hquery : code ≠ '?'.toNat := by
      rintro rfl
      have hreserved : Lib.Percent.alwaysSafe '?'.toNat = false := rfl
      exact h.not_mem hreserved (by decide) piece hpiece hcode
    have hfragment : code ≠ '#'.toNat := by
      rintro rfl
      have hreserved : Lib.Percent.alwaysSafe '#'.toNat = false := rfl
      exact h.not_mem hreserved (by decide) piece hpiece hcode
    rw [inPath, Bool.and_eq_true, bne_iff_ne, bne_iff_ne]
    exact ⟨hquery, hfragment⟩

/-- The segments of a filled text are those of the text, filled. -/
theorem splitOn_fill_pieces (h : Encodes texts pieces) (text : Text) :
    (Placeholders.fill '\x7b'.toNat '\x7d'.toNat text pieces).splitOn '/'.toNat =
      filledSegments (text.splitOn '/'.toNat) pieces := by
  apply Lib.Placeholders.splitOn_fill
  · decide
  · decide
  · exact h.not_mem rfl (by decide)

theorem pathSegments_fill (h : Encodes texts pieces) (habsolute : template.head? = some '/'.toNat) :
    pathSegments (Placeholders.fill '\x7b'.toNat '\x7d'.toNat template pieces) =
      filledSegments (pathSegments template) pieces := by
  cases template with
  | nil => cases habsolute
  | cons code template =>
    obtain rfl : code = '/'.toNat := Option.some.inj habsolute
    have hpart : pathPart ('/'.toNat :: template) = [] ++ '/'.toNat :: pathPart template := rfl
    have hsplit : (pathPart ('/'.toNat :: template)).splitOn '/'.toNat =
        [] :: (pathPart template).splitOn '/'.toNat := by
      rw [hpart, List.splitOn_append_cons_self_of_not_mem List.not_mem_nil]
    rw [pathSegments, pathPart_fill h, splitOn_fill_pieces h, pathSegments, hsplit]
    rfl

/-! ### Kinds of segments -/

theorem dots_of_segmentKind {segment : Text} (h : segmentKind segment ≠ .name) :
    ∀ code ∈ segment, code = '.'.toNat := by
  rw [segmentKind] at h
  split_ifs at h with hhere hup
  · rw [hhere]
    decide
  · rw [hup]
    decide
  · exact absurd rfl h

/-- Encoding the texts of a segment makes no dot segment of it, and keeps none from being one. -/
theorem segmentKind_fill (h : Encodes texts pieces) (segment : Text) :
    segmentKind (Placeholders.fill '\x7b'.toNat '\x7d'.toNat segment pieces) =
      segmentKind (Placeholders.fill '\x7b'.toNat '\x7d'.toNat segment texts) := by
  have hpieces : List.Forall₂ (fun piece text => (∀ code ∈ piece, code = '.'.toNat) →
      text = piece) pieces texts := by
    apply List.Forall₂.flip
    exact h.imp fun text piece hpiece hdots => Lib.Percent.eq_of_quote_dots hpiece.1 hdots
  have htexts : List.Forall₂ (fun text piece => (∀ code ∈ text, code = '.'.toNat) →
      piece = text) texts pieces := by
    apply h.imp
    intro text piece hpiece hdots
    have hquote := hpiece.1
    rw [Lib.Percent.quote_dots hdots, Option.some.injEq] at hquote
    exact hquote.symm
  by_cases hkind : segmentKind
      (Placeholders.fill '\x7b'.toNat '\x7d'.toNat segment pieces) = .name
  · by_cases hkind' : segmentKind
        (Placeholders.fill '\x7b'.toNat '\x7d'.toNat segment texts) = .name
    · rw [hkind, hkind']
    · rw [Lib.Placeholders.fill_eq_of_forall htexts (dots_of_segmentKind hkind')]
  · rw [Lib.Placeholders.fill_eq_of_forall hpieces (dots_of_segmentKind hkind)]

theorem segmentKinds_fill (h : Encodes texts pieces) (segments : List Text) :
    segmentKinds (filledSegments segments pieces) =
      segmentKinds (filledSegments segments texts) := by
  induction segments generalizing texts pieces with
  | nil => rfl
  | cons segment segments ih =>
    have hrest := ih (h.drop (Placeholders.marks '\x7b'.toNat '\x7d'.toNat segment))
    have hhead := segmentKind_fill h segment
    exact congrArg₂ List.cons hhead hrest

/-- A segment of the template stays as it is, or is a name. -/
theorem becomes_filledSegments (segments texts : List Text) :
    List.Forall₂ DotSegments.Becomes (segmentKinds segments)
      (segmentKinds (filledSegments segments texts)) := by
  induction segments generalizing texts with
  | nil => exact .nil
  | cons segment segments ih =>
    refine .cons ?_ (ih _)
    cases hcut : Placeholders.cut '\x7b'.toNat '\x7d'.toNat segment with
    | none =>
      left
      cases texts with
      | nil => rfl
      | cons text texts => rw [Placeholders.fill, hcut]
    | some cutting =>
      right
      by_contra hkind
      have hmem : '\x7b'.toNat ∈ segment := by
        rw [Lib.Placeholders.eq_of_cut hcut]
        exact List.mem_append_right _ List.mem_cons_self
      exact absurd (dots_of_segmentKind hkind _ hmem) (by decide)

/-! ### The shape -/

/-- The segments are those of the filled template iff the path is the filled template. -/
theorem segments_iff (h : Encodes texts pieces) (path : Text) :
    path.splitOn '/'.toNat = filledSegments (template.splitOn '/'.toNat) pieces ↔
      path = Placeholders.fill '\x7b'.toNat '\x7d'.toNat template pieces := by
  rw [← splitOn_fill_pieces h]
  constructor
  · intro heq
    rw [← @List.intercalate_splitOn _ path _ _ '/'.toNat, heq, List.intercalate_splitOn]
  · rintro rfl
    rfl

/-- Dot-segment removal takes no more out of the filled template iff the texts do no harm. -/
theorem removal_iff (h : Encodes texts pieces) (habsolute : template.head? = some '/'.toNat) :
    (∀ i, RemovedFrom (Placeholders.fill '\x7b'.toNat '\x7d'.toNat template pieces) i →
        RemovedFrom template i) ↔
      ∀ p, DotSegments.Changed (segmentKinds (pathSegments template))
          (segmentKinds (filledSegments (pathSegments template) texts)) p →
        ∀ j ≤ p, RemovedFrom template j := by
  have hkinds : segmentKinds (pathSegments
        (Placeholders.fill '\x7b'.toNat '\x7d'.toNat template pieces)) =
      segmentKinds (filledSegments (pathSegments template) texts) := by
    rw [pathSegments_fill h habsolute, segmentKinds_fill h]
  have hiff := Lib.DotSegments.removed_subset_iff (becomes_filledSegments
    (pathSegments template) texts)
  rw [← hkinds] at hiff ⊢
  exact hiff

/-- **The shape of a path**: `_assemble_path` keeps the shape of a template iff its arguments have
no lone surrogates, the empty ones bring no placeholder about, and none makes a dot segment where
something up to it stays. -/
theorem path_shape_iff {α : Type} (str : α → Text) (template : PathTemplate) (args : List α)
    (hargs : args.length = countPlaceholders template.text.toList) :
    (∃ path, assemblePath str (codes template.text) args = .ok path ∧
        ShapeKept (codes template.text) (args.map str) path) ↔
      KeepsShape (codes template.text) (args.map str) := by
  have habsolute : (codes template.text).head? = some '/'.toNat := by
    rw [codes, List.head?_map, template.absolute]
    rfl
  have hplaces {pieces : List Text} (h : Encodes (args.map str) pieces) :
      Placeholders.replaceAll '\x7b'.toNat '\x7d'.toNat (codes template.text) pieces =
          Placeholders.fill '\x7b'.toNat '\x7d'.toNat (codes template.text) pieces ↔
        Placeholders.InPlace '\x7b'.toNat '\x7d'.toNat (codes template.text) pieces := by
    apply Lib.Placeholders.replaceAll_eq_fill_iff_inPlace (by decide)
    · intro piece hpiece
      exact ⟨h.not_mem rfl (by decide) piece hpiece, h.not_mem rfl (by decide) piece hpiece⟩
    · apply Lib.Placeholders.hasMarks_of_marks
      rw [codes, marks_codes, ← hargs, ← h.length_eq, List.length_map]
  constructor
  · rintro ⟨path, hpath, ⟨pieces, hencodes, hsegments⟩, hremoval⟩
    rw [assemblePath_of_encodes hencodes, Except.ok.injEq] at hpath
    rw [segments_iff hencodes] at hsegments
    rw [hsegments] at hpath hremoval
    exact {
      scalar := hencodes.scalar
      inPlace := hencodes.eq_map ▸ (hplaces hencodes).mp hpath
      dots := (removal_iff hencodes habsolute).mp hremoval }
  · intro h
    have hencodes := encodes_of_scalar h.scalar
    have hpath := (hplaces hencodes).mpr h.inPlace
    refine ⟨_, assemblePath_of_encodes hencodes, ⟨_, hencodes, ?_⟩, ?_⟩
    · exact (segments_iff hencodes _).mpr hpath
    · rw [hpath]
      exact (removal_iff hencodes habsolute).mpr h.dots

/-- The template `/orders/{}`. -/
def ordersTemplate : PathTemplate := ⟨"/orders/\x7b\x7d", by decide, by decide⟩

/-- An argument with separators. -/
theorem path_shape_separators :
    (∃ path, assemblePath codes (codes ordersTemplate.text) ["../a b"] = .ok path ∧
        ShapeKept (codes ordersTemplate.text) [codes "../a b"] path) ↔
      KeepsShape (codes ordersTemplate.text) [codes "../a b"] :=
  path_shape_iff codes ordersTemplate ["../a b"] (by decide)

/-- The argument `..` takes `orders` out of the path. -/
theorem dot_dot_removes_segment :
    callPath codes id "Orders" (codes "/") (some ordersTemplate) (some [".."]) =
        .ok (codes "/orders/..") ∧
      ¬ShapeKept (codes ordersTemplate.text) [codes ".."] (codes "/orders/..") := by
  refine ⟨by decide, fun h => ?_⟩
  have hremoved : RemovedFrom (codes "/orders/..") 0 := by
    rw [RemovedFrom]
    decide
  have hkept : ¬RemovedFrom (codes ordersTemplate.text) 0 := by
    rw [RemovedFrom]
    decide
  exact hkept (h.removal 0 hremoved)

-- an empty argument between braces, and the argument of the next place in its stead
example : assemblePath codes (codes "/\x7b\x7b\x7d\x7d/\x7b\x7d") ["", "x"] =
    .ok (codes "/x/\x7b\x7d") := by
  decide

end Lnpl.Drivers
