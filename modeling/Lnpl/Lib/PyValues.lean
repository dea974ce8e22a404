import Mathlib.Algebra.Ring.Nat
import Mathlib.Data.List.Infix
import Mathlib.Data.List.Sort

/-!
# JSON values in Python

What `json.loads` answers, and what the language does with it: truth, `==`, hashing, iteration,
`in`, `sorted`, `repr`, and `json.dumps` with sorted keys.

A dict is a list of its items in insertion order, each key once.  Where `==` compares numbers, it
compares their values, so that `True`, `1` and `1.0` are one key of a dict.
-/

namespace Lnpl.Lib.Py

/-- A value.  A float carries its exact value, and its `repr`. -/
inductive Value where
  | none
  | bool (b : Bool)
  | int (n : Int)
  | float (value : Rat) (text : String)
  | str (s : String)
  | list (items : List Value)
  | dict (fields : List (String × Value))
  deriving Repr, Inhabited

/-- The items of a dict. -/
abbrev Fields := List (String × Value)

/-- What an operation raises. -/
inductive Error where
  | typeError
  | keyError
  | attributeError
  deriving DecidableEq, Repr

/-- What a dict or a set compares of a hashable value. -/
inductive Key where
  | none
  | num (value : Rat)
  | str (s : String)
  deriving DecidableEq, Repr

/-! ### Truth, hashing and equality -/

/-- `bool(value)`. -/
def Value.truthy : Value → Bool
  | .none => false
  | .bool b => b
  | .int n => n ≠ 0
  | .float value _ => value ≠ 0
  | .str s => s ≠ ""
  | .list items => !items.isEmpty
  | .dict fields => !fields.isEmpty

/-- `value or other`. -/
def Value.orElse (value other : Value) : Value :=
  if value.truthy then value else other

/-- The key of a scalar. -/
def Value.key? : Value → Option Key
  | .none => some .none
  | .bool b => some (.num (if b then 1 else 0))
  | .int n => some (.num n)
  | .float value _ => some (.num value)
  | .str s => some (.str s)
  | .list _ | .dict _ => Option.none

/-- The key of a value; a list and a dict are not hashable. -/
def Value.hash (value : Value) : Except Error Key :=
  match value.key? with
  | some key => .ok key
  | Option.none => .error .typeError

/-- `fields.get(key)`, where a missing key is told from a `None`. -/
def field? (fields : Fields) (key : String) : Option Value :=
  fields.lookup key

/-- `fields.get(key)`. -/
def field (fields : Fields) (key : String) : Value :=
  (field? fields key).getD .none

/-- `fields[key]`. -/
def item (fields : Fields) (key : String) : Except Error Value :=
  match field? fields key with
  | some value => .ok value
  | Option.none => .error .keyError

mutual

/-- `a == b`. -/
def Value.eq : Value → Value → Bool
  | .list items, .list items' => eqItems items items'
  | .dict fields, .dict fields' => fields.length == fields'.length && eqFields fields fields'
  | a, b => a.key?.isSome && a.key? == b.key?

/-- Equal element by element. -/
def eqItems : List Value → List Value → Bool
  | [], [] => true
  | a :: items, b :: items' => a.eq b && eqItems items items'
  | _, _ => false

/-- Each item is one of the other dict. -/
def eqFields : Fields → Fields → Bool
  | [], _ => true
  | (key, a) :: fields, fields' =>
    (match fields'.lookup key with
      | some b => a.eq b
      | Option.none => false) && eqFields fields fields'

end

/-- The number of a bool, an int or a float. -/
def Value.number? : Value → Option Rat
  | .bool b => some (if b then 1 else 0)
  | .int n => some n
  | .float value _ => some value
  | _ => Option.none

mutual

/-- `a > b`. -/
def Value.gt : Value → Value → Except Error Bool
  | .list items, .list items' => gtItems items items'
  | .str s, .str s' => .ok (decide (s' < s))
  | a, b =>
    match a.number?, b.number? with
    | some x, some y => .ok (decide (y < x))
    | _, _ => .error .typeError

/-- `a > b` of lists and of tuples: the first element in which they differ decides. -/
def gtItems : List Value → List Value → Except Error Bool
  | [], _ => .ok false
  | _ :: _, [] => .ok true
  | a :: items, b :: items' => if a.eq b then gtItems items items' else a.gt b

end

/-- `isinstance(value, str)` and its text. -/
def Value.str? : Value → Option String
  | .str s => some s
  | _ => Option.none

/-- `type(value).__name__`. -/
def Value.typeName : Value → String
  | .none => "NoneType"
  | .bool _ => "bool"
  | .int _ => "int"
  | .float .. => "float"
  | .str _ => "str"
  | .list _ => "list"
  | .dict _ => "dict"

/-! ### Containers -/

/-- The characters of a text, as texts. -/
def characters (s : String) : List Value :=
  s.toList.map fun ch => .str (String.ofList [ch])

/-- `list(value)`, which is also what `for` runs over. -/
def Value.iterate : Value → Except Error (List Value)
  | .str s => .ok (characters s)
  | .list items => .ok items
  | .dict fields => .ok (fields.map fun item => .str item.1)
  | _ => .error .typeError

/-- `text in value`. -/
def Value.containsText (text : String) : Value → Except Error Bool
  | .str s => .ok (decide (text.toList <:+: s.toList))
  | .list items => .ok (items.any fun item => item.eq (.str text))
  | .dict fields => .ok (field? fields text).isSome
  | _ => .error .typeError

/-- `value.get(key)` of whatever the value is. -/
def Value.get (value : Value) (key : String) : Except Error Value :=
  match value with
  | .dict fields => .ok (field fields key)
  | _ => .error .attributeError

/-! ### Sorting -/

/-- `sorted` of texts. -/
def sortTexts (texts : List String) : List String :=
  texts.insertionSort (· ≤ ·)

/-- All keys are texts. -/
def textKeys? (keys : List Key) : Option (List String) :=
  keys.mapM fun
    | .str s => some s
    | _ => Option.none

/-- All keys are numbers. -/
def numberKeys? (keys : List Key) : Option (List Rat) :=
  keys.mapM fun
    | .num value => some value
    | _ => Option.none

/-- `sorted` of keys: of two that are neither texts nor numbers both, none is less than the other.
-/
def sortKeys (keys : List Key) : Except Error (List Key) :=
  match keys with
  | [] | [_] => .ok keys
  | _ =>
    match textKeys? keys, numberKeys? keys with
    | some texts, _ => .ok ((sortTexts texts).map Key.str)
    | Option.none, some numbers => .ok ((numbers.insertionSort (· ≤ ·)).map Key.num)
    | Option.none, Option.none => .error .typeError

variable {keys : List Key}

/-- Keys that are all read as values are the keys of these values. -/
theorem eq_map_of_mapM {α : Type} {f : Key → Option α} {g : α → Key} {values : List α}
    (hf : ∀ key value, f key = some value → key = g value) (h : keys.mapM f = some values) :
    keys = values.map g := by
  induction keys generalizing values with
  | nil =>
    obtain rfl : [] = values := by simpa using h
    rfl
  | cons key keys ih =>
    rw [List.mapM_cons] at h
    obtain ⟨value, hvalue, h⟩ := Option.bind_eq_some_iff.mp h
    obtain ⟨rest, hrest, h⟩ := Option.bind_eq_some_iff.mp h
    obtain rfl := Option.some.inj h
    rw [ih hrest, hf key value hvalue, List.map_cons]

theorem eq_map_of_textKeys? {texts : List String} (h : textKeys? keys = some texts) :
    keys = texts.map Key.str := by
  refine eq_map_of_mapM (fun key value hkey => ?_) h
  cases key with
  | str s => rw [Option.some.inj hkey]
  | none | num => cases hkey

theorem eq_map_of_numberKeys? {numbers : List Rat} (h : numberKeys? keys = some numbers) :
    keys = numbers.map Key.num := by
  refine eq_map_of_mapM (fun key value hkey => ?_) h
  cases key with
  | num n => rw [Option.some.inj hkey]
  | none | str => cases hkey

/-- Sorting loses and adds nothing. -/
theorem perm_of_sortKeys {sorted : List Key} (h : sortKeys keys = .ok sorted) :
    sorted.Perm keys := by
  unfold sortKeys at h
  split at h
  · rw [← Except.ok.inj h]
  · rw [← Except.ok.inj h]
  · split at h
    · next htexts =>
      rw [← Except.ok.inj h, eq_map_of_textKeys? htexts]
      exact (List.perm_insertionSort _ _).map _
    · next numbers _ hnumbers =>
      rw [← Except.ok.inj h, eq_map_of_numberKeys? hnumbers]
      exact (List.perm_insertionSort _ numbers).map _
    · cases h

/-- `sep.join(keys)`. -/
def joinKeys (sep : String) (keys : List Key) : Except Error String :=
  match textKeys? keys with
  | some texts => .ok (sep.intercalate texts)
  | Option.none => .error .typeError

/-! ### Texts -/

mutual

/-- `repr(value)`; `quote` is the `repr` of a text. -/
def Value.repr (quote : String → String) : Value → String
  | .none => "None"
  | .bool b => if b then "True" else "False"
  | .int n => toString n
  | .float _ text => text
  | .str s => quote s
  | .list items => "[" ++ ", ".intercalate (reprItems quote items) ++ "]"
  | .dict fields => "\x7b" ++ ", ".intercalate (reprFields quote fields) ++ "\x7d"

def reprItems (quote : String → String) : List Value → List String
  | [] => []
  | value :: items => value.repr quote :: reprItems quote items

def reprFields (quote : String → String) : Fields → List String
  | [] => []
  | (key, value) :: fields => (quote key ++ ": " ++ value.repr quote) :: reprFields quote fields

end

/-- `str(value)`. -/
def Value.text (quote : String → String) : Value → String
  | .str s => s
  | value => value.repr quote

/-- A hexadecimal digit. -/
def hexDigit (n : Nat) : Char :=
  Char.ofNat (if n < 10 then n + 48 else n + 87)

/-- One character in a JSON text that is not kept to ASCII. -/
def escape (ch : Char) : List Char :=
  if ch = '"' then ['\\', '"']
  else if ch = '\\' then ['\\', '\\']
  else if ch = '\n' then ['\\', 'n']
  else if ch = '\r' then ['\\', 'r']
  else if ch = '\t' then ['\\', 't']
  else if ch.toNat = 8 then ['\\', 'b']
  else if ch.toNat = 12 then ['\\', 'f']
  else if ch.toNat < 32 then
    ['\\', 'u', '0', '0', hexDigit (ch.toNat / 16), hexDigit (ch.toNat % 16)]
  else [ch]

/-- A text in JSON. -/
def quoteJson (s : String) : String :=
  "\"" ++ String.ofList (s.toList.flatMap escape) ++ "\""

/-- An item put in order of its key. -/
def insertItem (item : String × String) : List (String × String) → List (String × String)
  | [] => [item]
  | other :: items =>
    if item.1 ≤ other.1 then item :: other :: items else other :: insertItem item items

mutual

/-- `json.dumps(value, sort_keys=True, ensure_ascii=False)`. -/
def Value.dumps : Value → String
  | .none => "null"
  | .bool b => if b then "true" else "false"
  | .int n => toString n
  | .float _ text => text
  | .str s => quoteJson s
  | .list items => "[" ++ ", ".intercalate (dumpItems items) ++ "]"
  | .dict fields =>
    let items := (dumpFields fields).map fun item => quoteJson item.1 ++ ": " ++ item.2
    "\x7b" ++ ", ".intercalate items ++ "\x7d"

def dumpItems : List Value → List String
  | [] => []
  | value :: items => value.dumps :: dumpItems items

/-- The items in order of their keys. -/
def dumpFields : Fields → List (String × String)
  | [] => []
  | (key, value) :: fields => insertItem (key, value.dumps) (dumpFields fields)

end

end Lnpl.Lib.Py
