import Lnpl.Backend.Guards
import Lnpl.Front.Equiv.Condition

/-!
# Names of the rendered function

A printed name is cut at its underscores into a word with a number and what follows it.  A reference
has no underscore of its own, and its dot is printed as two, so it has a name of the function only
if it is spelt like one without underscores.
-/

namespace Lnpl.Backend

open Front (Python isReferenceName isCamelName)

/-! ### Printed names -/

/-- What stands between the underscores of a text. -/
def pieces (text : String) : List (List Char) := text.toList.splitOn '_'

/-- A word of letters, a number of digits or nothing, and suffixes without underscores. -/
def Ssa.Plain : Ssa → Prop
  | .field _ => False
  | .plain word number suffixes =>
    word.toList.all Char.isAlpha = true ∧ number.toList.all Char.isDigit = true ∧
      ∀ suffix ∈ suffixes, '_' ∉ suffix.toList

variable {chars : List Char} {ch : Char} {name : String}

variable {p : Char → Bool} {word number : String} {suffixes : List String} {a b : Nat}

theorem not_mem_of_all (h : chars.all p = true) (hp : p ch = false) : ch ∉ chars := by
  intro hmem
  have hch := List.all_eq_true.mp h ch hmem
  rw [hp] at hch
  cases hch

theorem toList_join_suffixes (suffixes : List String) :
    (String.join (suffixes.map ("_" ++ ·))).toList =
      suffixes.flatMap fun suffix => '_' :: suffix.toList := by
  induction suffixes with
  | nil => rfl
  | cons suffix suffixes ih =>
    rw [List.map_cons, String.join_cons, String.toList_append, ih, String.toList_append,
      List.flatMap_cons]
    rfl

theorem intercalate_underscore (xs : List Char) (ss : List (List Char)) :
    ['_'].intercalate (xs :: ss) = xs ++ ss.flatMap fun s => '_' :: s := by
  induction ss generalizing xs with
  | nil =>
    show ['_'].intercalate [xs] = xs ++ []
    rw [List.intercalate_singleton, List.append_nil]
  | cons s ss ih =>
    rw [List.intercalate_cons_cons, ih s, List.flatMap_cons, List.append_assoc]
    rfl

/-- The pieces of a printed name. -/
theorem pieces_text (h : (Ssa.plain word number suffixes).Plain) :
    pieces (Ssa.plain word number suffixes).text =
      (word.toList ++ number.toList) :: suffixes.map String.toList := by
  obtain ⟨hword, hnumber, hsuffixes⟩ := h
  have htext : (Ssa.plain word number suffixes).text.toList =
      ['_'].intercalate ((word.toList ++ number.toList) :: suffixes.map String.toList) := by
    rw [intercalate_underscore, List.flatMap_map]
    show (word ++ number ++ String.join (suffixes.map ("_" ++ ·))).toList = _
    rw [String.toList_append, String.toList_append, toList_join_suffixes]
  unfold pieces
  rw [htext]
  apply List.splitOn_intercalate
  · intro piece hpiece
    rcases List.mem_cons.mp hpiece with rfl | hmem
    · rw [List.mem_append]
      rintro (hw | hn)
      · exact not_mem_of_all hword (by decide) hw
      · exact not_mem_of_all hnumber (by decide) hn
    · obtain ⟨suffix, hsuffix, rfl⟩ := List.mem_map.mp hmem
      exact hsuffixes suffix hsuffix
  · exact List.cons_ne_nil _ _

theorem not_isAlpha_of_isDigit (h : ch.isDigit = true) : ch.isAlpha = false := by
  delta Char.isAlpha Char.isUpper Char.isLower
  simp only [Char.isDigit, ge_iff_le, Bool.and_eq_true,
    decide_eq_true_eq, Bool.or_eq_false_iff, Bool.and_eq_false_imp, decide_eq_false_iff_not,
    UInt32.le_iff_toNat_le] at *
  have hzero : '0'.val.toNat = 48 := rfl
  have hnine : '9'.val.toNat = 57 := rfl
  have hA : 'A'.val.toNat = 65 := rfl
  have ha : 'a'.val.toNat = 97 := rfl
  omega

theorem takeWhile_append_of_none {xs ys : List Char} (hxs : xs.all p = true)
    (hys : ∀ ch ∈ ys, p ch = false) : (xs ++ ys).takeWhile p = xs := by
  rw [List.takeWhile_append_of_pos (List.all_eq_true.mp hxs)]
  cases ys with
  | nil => exact List.append_nil xs
  | cons ch ys =>
    rw [List.takeWhile_cons, hys ch List.mem_cons_self]
    exact List.append_nil xs

/-- A word of letters ends where the digits begin. -/
theorem takeWhile_word {word number : List Char} (hword : word.all Char.isAlpha = true)
    (hnumber : number.all Char.isDigit = true) :
    (word ++ number).takeWhile Char.isAlpha = word :=
  takeWhile_append_of_none hword fun ch hch =>
    not_isAlpha_of_isDigit (List.all_eq_true.mp hnumber ch hch)

theorem all_isDigit_toString (n : Nat) : (toString n).toList.all Char.isDigit = true := by
  rw [Front.toList_toString]
  exact List.all_eq_true.mpr fun ch hch => Front.isDigit_of_mem_toDigits hch

theorem nat_toString_inj (h : toString a = toString b) : a = b := by
  have hdigits := congrArg String.toList h
  rw [Front.toList_toString, Front.toList_toString] at hdigits
  have hvalue := congrArg (fun digits => Nat.ofDigitChars 10 digits 0) hdigits
  simpa using hvalue

/-- A number ends where a word of letters begins. -/
theorem numbered_inj {tail tail' : String} (h : tail.toList.all Char.isAlpha = true)
    (h' : tail'.toList.all Char.isAlpha = true) (heq : toString a ++ tail = toString b ++ tail') :
    a = b ∧ tail = tail' := by
  have hnone {text : String} (htext : text.toList.all Char.isAlpha = true) :
      ∀ ch ∈ text.toList, ch.isDigit = false := by
    intro ch hch
    cases hdigit : ch.isDigit with
    | false => rfl
    | true =>
      have halpha := List.all_eq_true.mp htext ch hch
      rw [not_isAlpha_of_isDigit hdigit] at halpha
      cases halpha
  have hlist := congrArg String.toList heq
  rw [String.toList_append, String.toList_append] at hlist
  have hdigits : (toString a).toList = (toString b).toList := by
    rw [← takeWhile_append_of_none (all_isDigit_toString a) (hnone h), hlist,
      takeWhile_append_of_none (all_isDigit_toString b) (hnone h')]
  rw [hdigits] at hlist
  exact ⟨nat_toString_inj (String.toList_inj.mp hdigits),
    String.toList_inj.mp (List.append_cancel_left hlist)⟩

/-- **Printed names** of the function's own are distinct. -/
theorem text_inj {s s' : Ssa} (h : s.Plain) (h' : s'.Plain) (htext : s.text = s'.text) :
    s = s' := by
  cases s with
  | field name => exact h.elim
  | plain word number suffixes =>
    cases s' with
    | field name => exact h'.elim
    | plain word' number' suffixes' =>
      have hpieces := congrArg pieces htext
      rw [pieces_text h, pieces_text h'] at hpieces
      obtain ⟨hhead, htail⟩ := List.cons.inj hpieces
      have hword : word.toList = word'.toList := by
        rw [← takeWhile_word h.1 h.2.1, hhead, takeWhile_word h'.1 h'.2.1]
      rw [hword] at hhead
      have hnumber := List.append_cancel_left hhead
      have hsuffixes := List.map_injective_iff.mpr (fun a b hab => String.toList_inj.mp hab) htail
      rw [String.toList_inj.mp hword, String.toList_inj.mp hnumber, hsuffixes]

/-! ### References -/

variable {py : Python}

theorem not_mem_of_isCamelName (h : isCamelName py chars = true) (hascii : ch.toNat < 128)
    (hch : ch.isAlphanum = false) : ch ∉ chars := by
  cases chars with
  | nil => exact List.not_mem_nil
  | cons first rest =>
    intro hmem
    have halnum := List.all_eq_true.mp (Bool.and_eq_true_iff.mp h).2 ch hmem
    rw [py.isAlnum_ascii ch hascii, hch] at halnum
    cases halnum

theorem flatMap_underscores (h : '.' ∉ chars) :
    (chars.flatMap fun ch => if ch = '.' then ['_', '_'] else [ch]) = chars := by
  induction chars with
  | nil => rfl
  | cons ch chars ih =>
    rw [List.mem_cons, not_or] at h
    rw [List.flatMap_cons, if_neg (fun hch => h.1 hch.symm), ih h.2]
    rfl

/-- A reference is one segment, or two with a dot between them. -/
theorem segments_of_isReferenceName (h : isReferenceName py name = true) :
    (isCamelName py name.toList = true ∧ (fieldIdent name).toList = name.toList) ∨
      ∃ a b, isCamelName py a = true ∧ isCamelName py b = true ∧ name.toList = a ++ '.' :: b ∧
        (fieldIdent name).toList = a ++ '_' :: '_' :: b := by
  have hdot {chars : List Char} (hchars : isCamelName py chars = true) : '.' ∉ chars :=
    not_mem_of_isCamelName hchars (by decide) (by decide)
  have hjoin : ['.'].intercalate (name.toList.splitOn '.') = name.toList :=
    List.intercalate_splitOn '.'
  unfold isReferenceName at h
  by_cases hreserved : name ∈ Front.reservedNames
  · rw [if_pos hreserved] at h
    cases h
  rw [if_neg hreserved] at h
  dsimp only at h
  by_cases hlength : 2 < (name.toList.splitOn '.').length
  · rw [if_pos hlength] at h
    cases h
  rw [if_neg hlength] at h
  match hsegments : name.toList.splitOn '.' with
  | [] =>
    exact absurd hsegments (List.splitOn_ne_nil _ _)
  | [a] =>
    rw [hsegments] at h hjoin
    have ha : isCamelName py a = true := List.all_eq_true.mp h a List.mem_cons_self
    rw [List.intercalate_singleton] at hjoin
    rw [hjoin] at ha
    refine .inl ⟨ha, ?_⟩
    unfold fieldIdent
    rw [String.toList_ofList, flatMap_underscores (hdot ha)]
  | [a, b] =>
    rw [hsegments] at h hjoin
    have ha : isCamelName py a = true := List.all_eq_true.mp h a List.mem_cons_self
    have hb : isCamelName py b = true :=
      List.all_eq_true.mp h b (List.mem_cons_of_mem a List.mem_cons_self)
    rw [List.intercalate_cons_cons, List.intercalate_singleton] at hjoin
    have hname : name.toList = a ++ '.' :: b := hjoin.symm.trans (List.append_assoc a ['.'] b)
    refine .inr ⟨a, b, ha, hb, hname, ?_⟩
    unfold fieldIdent
    rw [String.toList_ofList, hname, List.flatMap_append, List.flatMap_cons, if_pos rfl,
      flatMap_underscores (hdot ha), flatMap_underscores (hdot hb)]
    rfl
  | a :: b :: c :: rest =>
    rw [hsegments] at hlength
    have hlong : 2 < (a :: b :: c :: rest).length := by
      rw [List.length_cons, List.length_cons, List.length_cons]
      omega
    exact absurd hlong hlength

/-- The pieces of a parameter. -/
theorem pieces_fieldIdent (h : isReferenceName py name = true) :
    pieces (fieldIdent name) = [name.toList] ∨
      ∃ a b, name.toList = a ++ '.' :: b ∧ pieces (fieldIdent name) = [a, [], b] := by
  have hunderscore {chars : List Char} (hchars : isCamelName py chars = true) : '_' ∉ chars :=
    not_mem_of_isCamelName hchars (by decide) (by decide)
  unfold pieces
  rcases segments_of_isReferenceName h with ⟨hname, hident⟩ | ⟨a, b, ha, hb, hname, hident⟩
  · left
    rw [hident]
    have hone : (['_'].intercalate [name.toList]).splitOn '_' = [name.toList] := by
      refine List.splitOn_intercalate '_' (fun l hl => ?_) (List.cons_ne_nil _ _)
      rw [List.mem_singleton.mp hl]
      exact hunderscore hname
    rw [List.intercalate_singleton] at hone
    exact hone
  · right
    refine ⟨a, b, hname, ?_⟩
    rw [hident]
    have hthree : (['_'].intercalate [a, [], b]).splitOn '_' = [a, [], b] := by
      refine List.splitOn_intercalate '_' (fun l hl => ?_) (List.cons_ne_nil _ _)
      rcases List.mem_cons.mp hl with rfl | hl
      · exact hunderscore ha
      · rcases List.mem_cons.mp hl with rfl | hl
        · exact List.not_mem_nil
        · rw [List.mem_singleton.mp hl]
          exact hunderscore hb
    rw [intercalate_underscore, List.flatMap_cons, List.flatMap_cons, List.flatMap_nil,
      List.append_nil] at hthree
    exact hthree

/-- **Distinct references** are distinct parameters. -/
theorem fieldIdent_inj {a b : String} (ha : isReferenceName py a = true)
    (hb : isReferenceName py b = true) (h : fieldIdent a = fieldIdent b) : a = b := by
  apply String.toList_inj.mp
  rcases pieces_fieldIdent ha with ha | ⟨a₁, a₂, ha, hpa⟩
  · rcases pieces_fieldIdent hb with hb | ⟨b₁, b₂, hb, hpb⟩
    · rw [h, hb] at ha
      exact (List.cons.inj ha).1.symm
    · rw [h, hpb] at ha
      cases ha
  · rcases pieces_fieldIdent hb with hb | ⟨b₁, b₂, hb, hpb⟩
    · rw [h, hb] at hpa
      cases hpa
    · rw [h, hpb] at hpa
      obtain ⟨h₁, h₂⟩ := List.cons.inj hpa
      obtain ⟨-, h₂⟩ := List.cons.inj h₂
      rw [ha, hb, h₁, (List.cons.inj h₂).1]

/-- A parameter printed like a name of the function is a reference without a dot that is spelt like
a name without underscores. -/
theorem eq_of_fieldIdent_eq (h : isReferenceName py name = true)
    (hplain : (Ssa.plain word number suffixes).Plain) (hsuffixes : ∀ suffix ∈ suffixes, suffix ≠ "")
    (heq : fieldIdent name = (Ssa.plain word number suffixes).text) :
    suffixes = [] ∧ name = word ++ number := by
  have hpieces := pieces_text hplain
  rw [← heq] at hpieces
  rcases pieces_fieldIdent h with hone | ⟨a, b, -, hthree⟩
  · rw [hone] at hpieces
    obtain ⟨hhead, htail⟩ := List.cons.inj hpieces
    refine ⟨List.map_eq_nil_iff.mp htail.symm, ?_⟩
    apply String.toList_inj.mp
    rw [String.toList_append]
    exact hhead
  · rw [hthree] at hpieces
    obtain ⟨-, htail⟩ := List.cons.inj hpieces
    cases suffixes with
    | nil => cases htail
    | cons suffix suffixes =>
      have hempty := (List.cons.inj htail).1
      exact absurd (String.toList_inj.mp hempty.symm) (hsuffixes suffix List.mem_cons_self)

end Lnpl.Backend
