import Lnpl.Lib.PyJson

/-!
# JSON texts with sorted keys

`json.dumps(value, sort_keys=True, ensure_ascii=False)` is the text of the value whose dicts have
their items in the order of the keys (`dumps_eq_write`).  Two values that JSON can hold have one
text if and only if they are then equal (`dumps_inj`).
-/

namespace Lnpl.Lib.Py

/-- An item put in order of its key. -/
def insertField (entry : String × Value) : Fields → Fields
  | [] => [entry]
  | other :: fields =>
    if entry.1 ≤ other.1 then entry :: other :: fields else other :: insertField entry fields

mutual

/-- The value, the items of its dicts in order of their keys. -/
def Value.sorted : Value → Value
  | .list items => .list (sortedItems items)
  | .dict fields => .dict (sortedFields fields)
  | value => value

def sortedItems : List Value → List Value
  | [] => []
  | value :: items => value.sorted :: sortedItems items

def sortedFields : Fields → Fields
  | [] => []
  | (key, value) :: fields => insertField (key, value.sorted) (sortedFields fields)

end

/-! ### Texts -/

/-- The text of an item of a dict. -/
def writtenField (entry : String × Value) : String :=
  quoteJson entry.1 ++ ": " ++ String.ofList entry.2.write

theorem toList_intercalate_write (value : Value) (items : List Value) :
    (", ".intercalate ((value :: items).map fun value => String.ofList value.write)).toList =
      value.write ++ writeItems [',', ' '] items := by
  induction items generalizing value with
  | nil =>
    rw [List.map_cons, List.map_nil, String.intercalate_singleton, String.toList_ofList, writeItems,
      List.append_nil]
  | cons value' items ih =>
    have htail := ih value'
    rw [List.map_cons] at htail
    rw [List.map_cons, List.map_cons]
    rw [String.intercalate_cons_cons, String.toList_append, String.toList_append, htail,
      String.toList_ofList, writeItems, List.append_assoc]
    rfl

theorem toList_writtenField (entry : String × Value) :
    (writtenField entry).toList = writeText entry.1 ++ ':' :: ' ' :: entry.2.write := by
  unfold writtenField quoteJson writeText
  simp only [String.toList_append, String.toList_ofList]
  rw [show "\"".toList = ['"'] from rfl, show ": ".toList = [':', ' '] from rfl]
  simp

theorem toList_intercalate_writtenField (entry : String × Value) (fields : Fields) :
    (", ".intercalate ((entry :: fields).map writtenField)).toList =
      writeText entry.1 ++ ':' :: ' ' :: (entry.2.write ++ writeFields [',', ' '] fields) := by
  induction fields generalizing entry with
  | nil =>
    rw [List.map_cons, List.map_nil, String.intercalate_singleton, toList_writtenField, writeFields,
      List.append_nil]
  | cons entry' fields ih =>
    have htail := ih entry'
    obtain ⟨key, value⟩ := entry'
    rw [List.map_cons] at htail
    rw [List.map_cons, List.map_cons]
    rw [String.intercalate_cons_cons, String.toList_append, String.toList_append, htail,
      toList_writtenField, writeFields, show ", ".toList = [',', ' '] from rfl]
    simp only [List.append_assoc, List.cons_append]

theorem dumps_list (items : List Value)
    (h : dumpItems items = (sortedItems items).map fun value => String.ofList value.write) :
    (Value.list items).dumps = String.ofList (Value.list items).sorted.write := by
  rw [Value.dumps, Value.sorted, Value.write, h, ← String.toList_inj]
  simp only [String.toList_append, String.toList_ofList]
  cases sortedItems items with
  | nil => rfl
  | cons value items =>
    rw [toList_intercalate_write]
    rfl

theorem dumps_dict (fields : Fields)
    (h : dumpFields fields =
      (sortedFields fields).map fun entry => (entry.1, String.ofList entry.2.write)) :
    (Value.dict fields).dumps = String.ofList (Value.dict fields).sorted.write := by
  rw [Value.dumps, Value.sorted, Value.write, h, ← String.toList_inj]
  rw [List.map_map]
  simp only [String.toList_append, String.toList_ofList]
  cases sortedFields fields with
  | nil => rfl
  | cons entry fields =>
    have hfields := toList_intercalate_writtenField entry fields
    unfold writtenField at hfields
    rw [show ((fun item : String × String => quoteJson item.1 ++ ": " ++ item.2) ∘
      fun entry : String × Value => (entry.1, String.ofList entry.2.write)) =
        fun entry => quoteJson entry.1 ++ ": " ++ String.ofList entry.2.write from rfl, hfields]
    rfl

theorem map_insertField (entry : String × Value) (fields : Fields) :
    (insertField entry fields).map (fun entry => (entry.1, String.ofList entry.2.write)) =
      insertItem (entry.1, String.ofList entry.2.write)
        (fields.map fun entry => (entry.1, String.ofList entry.2.write)) := by
  induction fields with
  | nil => rfl
  | cons other fields ih =>
    rw [insertField, List.map_cons, insertItem]
    split_ifs
    · rfl
    · rw [List.map_cons, ih]

mutual

/-- **`json.dumps` with sorted keys** is `json.dumps` of the value with its keys sorted. -/
theorem dumps_eq_write : ∀ value : Value, value.dumps = String.ofList value.sorted.write
  | .none => rfl
  | .bool true => rfl
  | .bool false => rfl
  | .int n => by rw [Value.dumps, Value.sorted, Value.write, String.ofList_toList] <;> simp
  | .float _ text => by rw [Value.dumps, Value.sorted, Value.write, String.ofList_toList] <;> simp
  | .str s => by
    rw [Value.dumps, Value.sorted, Value.write, ← String.toList_inj]
    · unfold quoteJson writeText
      simp only [String.toList_append, String.toList_ofList]
      rfl
    all_goals simp
  | .list items => dumps_list items (dumpItems_eq_write items)
  | .dict fields => dumps_dict fields (dumpFields_eq_write fields)

theorem dumpItems_eq_write : ∀ items : List Value,
    dumpItems items = (sortedItems items).map fun value => String.ofList value.write
  | [] => rfl
  | value :: items => by
    rw [dumpItems, sortedItems, List.map_cons, dumps_eq_write value, dumpItems_eq_write items]

theorem dumpFields_eq_write : ∀ fields : Fields,
    dumpFields fields =
      (sortedFields fields).map fun entry => (entry.1, String.ofList entry.2.write)
  | [] => rfl
  | (key, value) :: fields => by
    rw [dumpFields, sortedFields, map_insertField, dumps_eq_write value,
      dumpFields_eq_write fields]

end

/-! ### Injectivity -/

variable {reader : Reader}

/-- Two values that JSON can hold are equal if their texts are. -/
theorem write_injective {a b : Value} (ha : a.Json reader) (hb : b.Json reader)
    (h : a.write = b.write) : a = b := by
  have hends : Ends [] := by simp [Ends]
  have hread (v : Value) (hv : v.Json reader) :
      scanOnce reader (2 * v.write.length + 1) (v.write ++ []) = some (v, []) :=
    scanOnce_write reader v _ [] hv hends (by omega)
  have hboth := hread a ha
  rw [h, hread b hb] at hboth
  exact (congrArg Prod.fst (Option.some.inj hboth)).symm

theorem jsonFields_insertField (entry : String × Value) {fields : Fields}
    (hentry : entry.2.Json reader) (h : JsonFields reader fields) :
    JsonFields reader (insertField entry fields) := by
  induction fields with
  | nil => exact ⟨hentry, h⟩
  | cons other fields ih =>
    obtain ⟨key, value⟩ := other
    rw [JsonFields] at h
    rw [insertField]
    split_ifs
    · exact ⟨hentry, h⟩
    · exact ⟨h.1, ih h.2⟩

theorem perm_insertField (entry : String × Value) (fields : Fields) :
    (insertField entry fields).Perm (entry :: fields) := by
  induction fields with
  | nil => exact .refl _
  | cons other fields ih =>
    rw [insertField]
    split_ifs
    · exact .refl _
    · exact (ih.cons other).trans (.swap entry other fields)

theorem perm_keys_sortedFields (fields : Fields) :
    ((sortedFields fields).map Prod.fst).Perm (fields.map Prod.fst) := by
  induction fields with
  | nil => exact .refl _
  | cons entry fields ih =>
    obtain ⟨key, value⟩ := entry
    rw [sortedFields]
    exact ((perm_insertField _ _).map Prod.fst).trans (ih.cons key)

mutual

theorem json_sorted : ∀ value : Value,
    value.Json reader → value.sorted.Json reader
  | .none, _ => by simp [Value.sorted, Value.Json]
  | .bool _, _ => by simp [Value.sorted, Value.Json]
  | .int _, h => by simpa [Value.sorted] using h
  | .float .., h => by simpa [Value.sorted] using h
  | .str _, _ => by simp [Value.sorted, Value.Json]
  | .list items, h => by
    rw [Value.Json] at h
    rw [Value.sorted, Value.Json]
    exact jsonItems_sorted items h
  | .dict fields, h => by
    rw [Value.Json] at h
    rw [Value.sorted, Value.Json]
    exact ⟨(perm_keys_sortedFields fields).nodup_iff.mpr h.1, jsonFields_sorted fields h.2⟩

theorem jsonItems_sorted : ∀ items : List Value,
    JsonItems reader items → JsonItems reader (sortedItems items)
  | [], h => h
  | value :: items, h => by
    rw [JsonItems] at h
    rw [sortedItems, JsonItems]
    exact ⟨json_sorted value h.1, jsonItems_sorted items h.2⟩

theorem jsonFields_sorted : ∀ fields : Fields,
    JsonFields reader fields → JsonFields reader (sortedFields fields)
  | [], h => h
  | (key, value) :: fields, h => by
    rw [JsonFields] at h
    rw [sortedFields]
    exact jsonFields_insertField _ (json_sorted value h.1) (jsonFields_sorted fields h.2)

end

/-- **Texts with sorted keys.**  Values that JSON can hold have one text if and only if they differ
at most in the order of the items of their dicts. -/
theorem dumps_inj {a b : Value} (ha : a.Json reader) (hb : b.Json reader) :
    a.dumps = b.dumps ↔ a.sorted = b.sorted := by
  rw [dumps_eq_write, dumps_eq_write, ← String.toList_inj, String.toList_ofList,
    String.toList_ofList]
  constructor
  · exact write_injective (json_sorted a ha) (json_sorted b hb)
  · intro h
    rw [h]

end Lnpl.Lib.Py
