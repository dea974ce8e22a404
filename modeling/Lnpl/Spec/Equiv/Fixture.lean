import Lnpl.Interp.Plain
import Lnpl.Lib.Results
import Lnpl.Spec.Fixture
import Mathlib.Data.List.MinMax

/-!
# Fixtures are what their lines say

A fixture shows every given line exactly when no layer undoes one and none misses one
(`visible_iff`).  Each fold over the lines ends with what was told last; the layers above the
payload and the tables are unions, whose right side wins.
-/

namespace Lnpl.Spec

open Interp (Json Dict Document Entity FillSource)
open Lib

variable {runner : Runner} {doc : Document} {workflow : String} {lines : List Given} {start : Start}

/-! ### Layers -/

/-- The later layer wins. -/
theorem getElem?_update (row fields : Dict) (f : String) :
    (update row fields)[f]? = fields[f]?.or row[f]? := Std.ExtTreeMap.getElem?_union

theorem getElem?_erase_self (d : Dict) (f : String) : (d.erase f)[f]? = none := by
  simp

variable {f g target key phrase name index field text id : String} {stubs : Stubs}
  {told : Except Fault Json} {schema : List SchemaEntry} {given : List String}

theorem getElem?_erase_ne {d : Dict} (h : g ≠ f) : (d.erase g)[f]? = d[f]? := by
  rw [Std.ExtTreeMap.getElem?_erase, if_neg]
  rwa [Std.LawfulEqCmp.compare_eq_iff_eq]

theorem getElem?_insert_ne {α : Type} {d : Std.ExtTreeMap String α} {value : α} (h : g ≠ f) :
    (d.insert g value)[f]? = d[f]? := by
  rw [Std.ExtTreeMap.getElem?_insert, if_neg]
  rwa [Std.LawfulEqCmp.compare_eq_iff_eq]

/-! ### Samples -/

/-- One entity adds the fields that it has samples of. -/
theorem isSome_sampleEntity (payload : Dict) (e : Entity) (f : String) :
    (sampleEntity runner payload e)[f]?.isSome = true ↔
      payload[f]?.isSome = true ∨ ∃ field ∈ e.fields, field.name = f ∧ field.derived = false ∧
        (runner.sample field.type).isNull = false := by
  unfold sampleEntity
  generalize e.fields = fields
  induction fields generalizing payload with
  | nil => simp
  | cons field fields ih =>
    rw [List.foldl_cons, ih, List.exists_mem_cons_iff, or_assoc.symm]
    refine or_congr_left ?_
    cases hderived : field.derived with
    | true => simp
    | false =>
      cases hsample : runner.sample field.type with
      | null => simp [Json.isNull]
      | _ =>
        by_cases hname : field.name = f
        · simp [hname, Json.isNull]
        · simp [hname, Std.ExtTreeMap.getElem?_insert]

/-- A sample payload has the fields that some entity has samples of. -/
theorem isSome_samplePayload (entities : List Entity) (f : String) :
    (samplePayload runner entities)[f]?.isSome = true ↔ Sampled runner entities f := by
  have hfold : ∀ payload : Dict, (entities.foldl (sampleEntity runner) payload)[f]?.isSome = true ↔
      payload[f]?.isSome = true ∨ Sampled runner entities f := by
    induction entities with
    | nil => simp [Sampled]
    | cons e entities ih =>
      intro payload
      rw [List.foldl_cons, ih, isSome_sampleEntity, or_assoc, Sampled, Sampled,
        List.exists_mem_cons_iff]
  rw [samplePayload, hfold]
  simp

/-! ### Folds over the lines -/

/-- A line is told with the value that it gives. -/
def Gives {α : Type} (told : Except Fault α) (read : Option α) : Prop :=
  ∃ value, told = .ok value ∧ read = some value

/-- A line that drops a field leaves none. -/
def GivesOrDrops {α : Type} : Option (Except Fault α) → Option α → Prop
  | some told, read => Gives told read
  | none, read => read = none

/-- The fold of `_payload_from_given`. -/
theorem foldlM_of_payloadFromGiven {input : Input}
    (h : payloadFromGiven runner doc lines = .ok input) :
    lines.foldlM (payloadLine runner doc)
      { payload := samplePayload runner doc.entityNode.toList
        stored := Tables.empty } = .ok input := by
  simp only [payloadFromGiven, bind_eq_ok] at h
  obtain ⟨input', hfold, h⟩ := h
  split_ifs at h
  · cases h
  · rw [hfold, pure_eq_ok.1 h]

/-- A field of the payload ends as the last line about it leaves it. -/
theorem payload_of_payloadFromGiven {input : Input}
    (h : payloadFromGiven runner doc lines = .ok input) (f : String) :
    (∀ told, lastTold (tellsPayload runner doc f) lines = some told →
      GivesOrDrops told input.payload[f]?) ∧
    (lastTold (tellsPayload runner doc f) lines = none →
      input.payload[f]? = (samplePayload runner doc.entityNode.toList)[f]?) := by
  refine lastTold_foldlM (fun input : Input => input.payload[f]?) (tellsPayload runner doc f)
    GivesOrDrops ?_ ?_ (foldlM_of_payloadFromGiven h)
  · intro input line input' told htold hline
    cases line with
    | inputField name text | field name text =>
      by_cases hname : name = f
      · subst hname
        obtain rfl : some (typedValue runner text (inputBase doc name)) = told := by
          simpa [tellsPayload, tellsInput] using htold
        simp only [payloadLine, bind_eq_ok] at hline
        obtain ⟨value, hvalue, hline⟩ := hline
        cases pure_eq_ok.1 hline
        exact ⟨value, hvalue, Std.ExtTreeMap.getElem?_insert_self⟩
      · simp [tellsPayload, tellsInput, Given.pops, hname] at htold
    | noInputField name | noField name =>
      by_cases hname : name = f
      · subst hname
        obtain rfl : none = told := by simpa [tellsPayload, tellsInput] using htold
        cases hline
        exact getElem?_erase_self _ _
      · simp [tellsPayload, tellsInput, Given.pops, hname] at htold
    | storedIndexed name index field text | networkStub name status
    | networkStubBody name status key text =>
      by_cases hname : name = f
      · subst hname
        obtain rfl : none = told := by simpa [tellsPayload, tellsInput, Given.pops] using htold
        cases hline
        exact getElem?_erase_self _ _
      · simp [tellsPayload, tellsInput, Given.pops, hname] at htold
    | valid | emptyRepository | stored name field text | run marker value =>
      simp [tellsPayload, tellsInput, Given.pops] at htold
  · intro input line input' htold hline
    cases line with
    | inputField name text | field name text =>
      have hname : name ≠ f := by
        rintro rfl
        simp [tellsPayload, tellsInput] at htold
      simp only [payloadLine, bind_eq_ok] at hline
      obtain ⟨value, _, hline⟩ := hline
      cases pure_eq_ok.1 hline
      exact getElem?_insert_ne hname
    | noInputField name | noField name | storedIndexed name index field text
    | networkStub name status | networkStubBody name status key text =>
      have hname : name ≠ f := by
        rintro rfl
        simp [tellsPayload, tellsInput, Given.pops] at htold
      cases hline
      exact getElem?_erase_ne hname
    | valid | emptyRepository | run marker value =>
      cases hline
      rfl
    | stored name field text =>
      simp only [payloadLine, bind_eq_ok] at hline
      obtain ⟨e, _, value, _, hline⟩ := hline
      cases pure_eq_ok.1 hline
      rfl

/-- An override ends as the last line about it leaves it. -/
theorem stored_of_payloadFromGiven {input : Input}
    (h : payloadFromGiven runner doc lines = .ok input) (id f : String) :
    (∀ told, lastTold (tellsStored runner doc id f) lines = some told →
      Gives told (input.stored.get id f)) ∧
    (lastTold (tellsStored runner doc id f) lines = none → input.stored.get id f = none) := by
  have hlast := lastTold_foldlM (fun input : Input => input.stored.get id f)
    (tellsStored runner doc id f) Gives ?_ ?_ (foldlM_of_payloadFromGiven h)
  · refine ⟨hlast.1, fun hnone => ?_⟩
    rw [hlast.2 hnone]
    exact Tables.get_empty id f
  · intro input line input' told htold hline
    cases line with
    | stored name field text =>
      simp only [payloadLine, bind_eq_ok] at hline
      obtain ⟨e, he, value, hvalue, hline⟩ := hline
      cases pure_eq_ok.1 hline
      simp only [tellsStored, he] at htold
      split_ifs at htold with hsubject
      obtain ⟨rfl, rfl⟩ := hsubject
      cases htold
      exact ⟨value, hvalue, Tables.get_set_self _ _ _ _⟩
    | _ => cases htold
  · intro input line input' htold hline
    cases line with
    | stored name field text =>
      simp only [payloadLine, bind_eq_ok] at hline
      obtain ⟨e, he, value, hvalue, hline⟩ := hline
      cases pure_eq_ok.1 hline
      simp only [tellsStored, he] at htold
      split_ifs at htold with hsubject
      rw [Tables.get_set, if_neg]
      rintro ⟨rfl, rfl⟩
      exact hsubject ⟨rfl, rfl⟩
    | inputField name text | field name text =>
      simp only [payloadLine, bind_eq_ok] at hline
      obtain ⟨value, _, hline⟩ := hline
      cases pure_eq_ok.1 hline
      rfl
    | _ =>
      cases hline
      rfl

/-- A field of a row. -/
def cell (rows : Tables String String Dict) (id key f : String) : Option Json :=
  (rows.get id key).bind fun row => row[f]?

/-- A field of an indexed row ends as the last line about it leaves it. -/
theorem cell_of_indexedSeedsFromGiven {seeds : Tables String String Dict}
    (h : indexedSeedsFromGiven runner doc lines = .ok seeds) (id index f : String) :
    (∀ told, lastTold (tellsIndexed runner doc id index f) lines = some told →
      Gives told (cell seeds id index f)) ∧
    (lastTold (tellsIndexed runner doc id index f) lines = none →
      cell seeds id index f = none) := by
  have hlast := lastTold_foldlM (fun seeds : Tables String String Dict => cell seeds id index f)
    (tellsIndexed runner doc id index f) Gives ?_ ?_ h
  · refine ⟨hlast.1, fun hnone => ?_⟩
    rw [hlast.2 hnone, cell, Tables.get_empty, Option.bind_none]
  · intro seeds line seeds' told htold hline
    cases line with
    | storedIndexed name i field text =>
      simp only [indexedLine, bind_eq_ok] at hline
      obtain ⟨e, he, value, hvalue, hline⟩ := hline
      cases pure_eq_ok.1 hline
      simp only [tellsIndexed, he] at htold
      split_ifs at htold with hsubject
      obtain ⟨rfl, rfl, rfl⟩ := hsubject
      cases htold
      refine ⟨value, hvalue, ?_⟩
      rw [cell, Tables.get_set_self, Option.bind_some]
      exact Std.ExtTreeMap.getElem?_insert_self
    | _ => cases htold
  · intro seeds line seeds' htold hline
    cases line with
    | storedIndexed name i field text =>
      simp only [indexedLine, bind_eq_ok] at hline
      obtain ⟨e, he, value, hvalue, hline⟩ := hline
      cases pure_eq_ok.1 hline
      simp only [tellsIndexed, he] at htold
      split_ifs at htold with hsubject
      rw [cell, cell, Tables.get_set]
      split_ifs with hrow
      · obtain ⟨rfl, rfl⟩ := hrow
        have hfield : field ≠ f := fun heq => hsubject ⟨rfl, rfl, heq⟩
        rw [Option.bind_some, getElem?_insert_ne hfield]
        cases seeds.get e.id index <;> simp
      · rfl
    | _ =>
      cases hline
      rfl

/-- The answer of the network that a run starts with. -/
theorem status_of_networkStubsFromGiven (h : networkStubsFromGiven runner lines = .ok stubs)
    {told : Except Fault Int} (hlast : lastTold (tellsStatus runner target) lines = some told) :
    Gives told (stubs[target]?.map Prod.fst) := by
  refine (lastTold_foldlM (fun stubs : Stubs => stubs[target]?.map Prod.fst)
    (tellsStatus runner target) Gives ?_ ?_ h).1 told hlast
  · intro stubs line stubs' told htold hline
    cases line with
    | networkStub t status =>
      simp only [networkLine, bind_eq_ok] at hline
      obtain ⟨value, hvalue, hline⟩ := hline
      cases pure_eq_ok.1 hline
      simp only [tellsStatus] at htold
      split_ifs at htold with hsubject
      subst hsubject
      cases htold
      exact ⟨value, hvalue, by rw [Std.ExtTreeMap.getElem?_insert_self]; rfl⟩
    | networkStubBody t status key text =>
      simp only [networkLine, bind_eq_ok] at hline
      obtain ⟨_, _, value, hvalue, hline⟩ := hline
      cases pure_eq_ok.1 hline
      simp only [tellsStatus] at htold
      split_ifs at htold with hsubject
      subst hsubject
      cases htold
      exact ⟨value, hvalue, by rw [Std.ExtTreeMap.getElem?_insert_self]; rfl⟩
    | _ => cases htold
  · intro stubs line stubs' htold hline
    cases line with
    | networkStub t status =>
      have ht : t ≠ target := by
        rintro rfl
        simp [tellsStatus] at htold
      simp only [networkLine, bind_eq_ok] at hline
      obtain ⟨_, _, hline⟩ := hline
      cases pure_eq_ok.1 hline
      rw [getElem?_insert_ne ht]
    | networkStubBody t status key text =>
      have ht : t ≠ target := by
        rintro rfl
        simp [tellsStatus] at htold
      simp only [networkLine, bind_eq_ok] at hline
      obtain ⟨_, _, _, _, hline⟩ := hline
      cases pure_eq_ok.1 hline
      rw [getElem?_insert_ne ht]
    | _ =>
      cases hline
      rfl

/-- A field of the body of a stub. -/
def bodyAt (stubs : Stubs) (target key : String) : Option Json :=
  stubs[target]?.bind fun stub => stub.2[key]?

/-- The body of a stub so far. -/
theorem bodyAt_eq (stubs : Stubs) (target key : String) :
    ((stubs[target]?.map Prod.snd).getD ∅)[key]? = bodyAt stubs target key := by
  unfold bodyAt
  cases stubs[target]? <;> simp

theorem body_of_networkStubsFromGiven (h : networkStubsFromGiven runner lines = .ok stubs)
    (hlast : lastTold (tellsBody runner target key) lines = some told) :
    Gives told (bodyAt stubs target key) := by
  refine (lastTold_foldlM (fun stubs : Stubs => bodyAt stubs target key)
    (tellsBody runner target key) Gives ?_ ?_ h).1 told hlast
  · intro stubs line stubs' told htold hline
    cases line with
    | networkStubBody t status k text =>
      simp only [networkLine, bind_eq_ok] at hline
      obtain ⟨value, hvalue, _, _, hline⟩ := hline
      cases pure_eq_ok.1 hline
      simp only [tellsBody] at htold
      split_ifs at htold with hsubject
      obtain ⟨rfl, rfl⟩ := hsubject
      cases htold
      refine ⟨value, hvalue, ?_⟩
      rw [bodyAt, Std.ExtTreeMap.getElem?_insert_self, Option.bind_some]
      exact Std.ExtTreeMap.getElem?_insert_self
    | _ => cases htold
  · intro stubs line stubs' htold hline
    cases line with
    | networkStub t status =>
      simp only [networkLine, bind_eq_ok] at hline
      obtain ⟨_, _, hline⟩ := hline
      cases pure_eq_ok.1 hline
      by_cases ht : t = target
      · subst ht
        rw [bodyAt, Std.ExtTreeMap.getElem?_insert_self, Option.bind_some]
        exact bodyAt_eq stubs t key
      · rw [bodyAt, bodyAt, getElem?_insert_ne ht]
    | networkStubBody t status k text =>
      simp only [networkLine, bind_eq_ok] at hline
      obtain ⟨_, _, _, _, hline⟩ := hline
      cases pure_eq_ok.1 hline
      by_cases ht : t = target
      · subst ht
        have hk : k ≠ key := by
          rintro rfl
          simp [tellsBody] at htold
        rw [bodyAt, Std.ExtTreeMap.getElem?_insert_self, Option.bind_some]
        exact (getElem?_insert_ne hk).trans (bodyAt_eq stubs t key)
      · rw [bodyAt, bodyAt, getElem?_insert_ne ht]
    | _ =>
      cases hline
      rfl

/-- The run context pins what was told last. -/
theorem get_runContextFromGiven {marker : FillSource} {value : String}
    (hlast : lastTold (tellsRun marker) lines = some value) :
    (runContextFromGiven lines).get marker = some value := by
  have hfold : lines.foldlM (fun context line => (pure (contextLine context line) : Except Fault _))
      {} = .ok (runContextFromGiven lines) := List.foldlM_pure
  refine (lastTold_foldlM (fun context : RunContext => context.get marker) (tellsRun marker)
    (fun value read => read = some value) ?_ ?_ hfold).1 value hlast
  · intro context line context' told htold hline
    cases pure_eq_ok.1 hline
    cases line with
    | run m value =>
      simp only [tellsRun] at htold
      split_ifs at htold with hm
      subst hm
      cases htold
      cases m <;> rfl
    | _ => cases htold
  · intro context line context' htold hline
    cases pure_eq_ok.1 hline
    cases line with
    | run m value =>
      have hm : m ≠ marker := by
        rintro rfl
        simp [tellsRun] at htold
      cases m <;> cases marker <;> first | rfl | exact absurd rfl hm
    | _ => rfl

/-! ### Rows -/

/-- Indexed rows lie on top of the others. -/
theorem cell_seedIndexed (seeds rows : Tables String String Dict) (id key f : String) :
    cell (seedIndexed seeds rows) id key f = (cell seeds id key f).or (cell rows id key f) := by
  have hget : (seedIndexed seeds rows).get id key =
      ((seeds.get id key).map fun fields => update ((rows.get id key).getD ∅) fields).or
        (rows.get id key) := by
    simp only [seedIndexed, Tables.get]
    rw [Std.ExtTreeMap.getElem?_union, Std.ExtTreeMap.getElem?_map]
  rw [cell, hget, cell, cell]
  cases seeds.get id key with
  | none => simp
  | some fields =>
    rw [Option.map_some, Option.some_or, Option.bind_some, Option.bind_some, getElem?_update]
    cases rows.get id key <;> simp

/-- Overrides lie on top of the rows that there are. -/
theorem cell_storeOverrides (stored : Tables String String Json)
    (rows : Tables String String Dict) (id key f : String) :
    cell (storeOverrides stored rows) id key f =
      (rows.get id key).bind fun row => (stored.get id f).or row[f]? := by
  rw [cell, storeOverrides, Tables.get_map]
  cases rows.get id key with
  | none => rfl
  | some row =>
    rw [Option.map_some, Option.bind_some, Option.bind_some, getElem?_update]
    rfl

/-- The default seed has a copy of the payload. -/
theorem get_defaultRows (payload : Dict) (id key : String) :
    (defaultRows runner doc workflow payload).get id key =
      if defaultKey runner doc workflow id payload = some key then some payload else none := by
  simp only [defaultRows, Tables.get]
  cases hkey : defaultKey runner doc workflow id payload with
  | none => simp
  | some k =>
    by_cases hk : k = key
    · subst hk
      simp
    · rw [getElem?_insert_ne hk]
      simp [hk]

/-! ### Indices -/

/-- An index is a row of digits. -/
theorem index_of_checkStored {tokens : List String}
    (h : checkStored runner schema phrase tokens = .ok (.storedIndexed name index field text)) :
    index.toList.all (isDecimal runner.py) = true := by
  unfold checkStored at h
  split at h
  · next token field' text' =>
    dsimp only at h
    split at h
    · cases h
    · split_ifs at h
      split at h
      · next index' hindexed =>
        cases h
        unfold indexedEntity at hindexed
        dsimp only at hindexed
        split_ifs at hindexed with hshape
        simp only [Bool.and_eq_true] at hshape
        cases hindexed
        rw [String.toList_ofList]
        exact hshape.1.2
      · cases h
  · cases h

/-- No other line stores an indexed row. -/
theorem index_of_checkGiven {place : String}
    (h : checkGiven runner schema place phrase = .ok (.storedIndexed name index field text)) :
    index.toList.all (isDecimal runner.py) = true := by
  have hrun : ∀ marker tokens, checkRunGiven runner phrase marker tokens ≠
      .ok (.storedIndexed name index field text) := by
    intro marker tokens hok
    unfold checkRunGiven at hok
    split at hok
    · split_ifs at hok
      cases hok
    · split at hok <;> cases hok
    · cases hok
  have hcall : ∀ tokens, checkCall runner phrase tokens ≠
      .ok (.storedIndexed name index field text) := by
    intro tokens hok
    unfold checkCall at hok
    dsimp only at hok
    split at hok
    · split_ifs at hok
      cases hok
    · split at hok
      · cases hok
      · split_ifs at hok
        cases hok
    · cases hok
  have hfield : ∀ fields first second, checkField runner fields phrase first second ≠
      .ok (.storedIndexed name index field text) := by
    intro fields first second hok
    unfold checkField notInputField at hok
    dsimp only at hok
    split at hok
    · split_ifs at hok
      cases hok
    · split_ifs at hok <;> cases hok
    · split_ifs at hok <;> cases hok
  unfold checkGiven at h
  dsimp only at h
  split at h
  · cases h
  · next first rest htokens =>
    have hok : ∀ x : Except String Given,
        x.mapError (fun message => Fault.spec (place ++ message)) =
          .ok (.storedIndexed name index field text) →
          x = .ok (.storedIndexed name index field text) := by
      intro x hx
      cases x with
      | error e => cases hx
      | ok g =>
        cases hx
        rfl
    have h := hok _ h
    split_ifs at h
    · cases h
    · cases h
    · exact index_of_checkStored h
    · exact absurd h (hcall _)
    · split at h
      · exact absurd h (hrun _ _)
      · exact absurd h (hfield _ _ _)
      · cases h

/-- The key of a default row is no index. -/
theorem defaultKey_ne_index {payload : Dict}
    (h : defaultKey runner doc workflow id payload = some key) :
    key.toList.all (isDecimal runner.py) = false := by
  have hhash : ∀ text : String, (id ++ "#" ++ text).toList.all (isDecimal runner.py) = false := by
    intro text
    have hdigit : isDecimal runner.py '#' = false := by
      rw [isDecimal, runner.py.isDigit_ascii '#' (by decide)]
      rfl
    rw [List.all_eq_false]
    refine ⟨'#', ?_, by simp [hdigit]⟩
    simp [String.toList_append]
  unfold defaultKey at h
  split_ifs at h
  split at h
  · dsimp only at h
    split_ifs at h
    · cases h
      exact hhash _
    · cases h
      exact hhash _
  · cases h
    exact hhash _

/-! ### The start of a run -/

/-- What a start is built of. -/
structure Built (runner : Runner) (doc : Document) (workflow : String) (lines : List Given)
    (start : Start) (input : Input) (seeds : Tables String String Dict) : Prop where
  input_eq : payloadFromGiven runner doc lines = .ok input
  seeds_eq : indexedSeedsFromGiven runner doc lines = .ok seeds
  stubs_eq : networkStubsFromGiven runner lines = .ok start.stubs
  payload : start.payload =
    update (samplePayload runner (validatedEntities doc workflow)) input.payload
  rows : start.rows = seedIndexed seeds (storeOverrides input.stored
    (if lines.contains .emptyRepository then Tables.empty
      else defaultRows runner doc workflow start.payload))
  context : start.context = runContextFromGiven lines

theorem exists_built (h : build runner doc workflow lines = .ok start) :
    ∃ input seeds, Built runner doc workflow lines start input seeds := by
  simp only [build, bind_eq_ok] at h
  obtain ⟨input, hinput, seeds, hseeds, stubs, hstubs, h⟩ := h
  cases pure_eq_ok.1 h
  exact ⟨input, seeds, hinput, hseeds, hstubs, rfl, rfl, rfl⟩

variable {input : Input} {seeds : Tables String String Dict}

section

variable (h : Built runner doc workflow lines start input seeds)
include h

/-- The payload is what the lines and the samples determine. -/
theorem Built.payloadAt_eq (f : String) :
    Dict.get start.payload f = payloadAt runner doc workflow lines f := by
  obtain ⟨htold, hquiet⟩ := payload_of_payloadFromGiven h.input_eq f
  rw [h.payload, Dict.get, getElem?_update, payloadAt]
  cases hlast : lastTold (tellsPayload runner doc f) lines with
  | none =>
    rw [hquiet hlast, Dict.get]
    cases (samplePayload runner doc.entityNode.toList)[f]? <;> rfl
  | some told =>
    have hgives := htold told hlast
    cases told with
    | none =>
      rw [show input.payload[f]? = none from hgives]
      rfl
    | some text =>
      obtain ⟨value, rfl, hvalue⟩ := hgives
      rw [hvalue]
      rfl

/-- A run has a line that stores a row only if its repository is not empty. -/
theorem Built.not_empty (htold : lastTold (tellsStored runner doc id f) lines = some told) :
    lines.contains .emptyRepository = false := by
  obtain ⟨line, hline, htells⟩ := exists_of_lastTold htold
  have hstores : lines.any Given.overrides = true := by
    rw [List.any_eq_true]
    refine ⟨line, hline, ?_⟩
    cases line <;> first | rfl | cases htells
  have hinput := h.input_eq
  simp only [payloadFromGiven, bind_eq_ok] at hinput
  obtain ⟨_, _, hinput⟩ := hinput
  rw [hstores, Bool.true_and] at hinput
  cases hempty : lines.contains .emptyRepository with
  | false => rfl
  | true =>
    rw [hempty] at hinput
    cases hinput

/-- The default seed has a row as the lines determine it. -/
theorem Built.hasSeed_iff (id : String) :
    HasSeed runner doc workflow lines id ↔
      ∃ key, defaultKey runner doc workflow id start.payload = some key := by
  unfold HasSeed defaultKey
  cases hseeded : isSeeded doc workflow id with
  | false => simp
  | true =>
    simp only [true_and, Bool.not_true, Bool.false_eq_true, if_false]
    cases hsource : lookupKeySource doc workflow id with
    | none => simp
    | some source =>
      cases source with
      | bare name => simp
      | qualified binding field =>
        by_cases hbinding : binding = Interp.payloadNamespace
        · subst hbinding
          simp only [Option.some.injEq, Interp.Ref.qualified.injEq, true_and, forall_eq', if_true]
          rw [← h.payloadAt_eq]
          cases hnull : (Dict.get start.payload field).isNull <;> simp
        · simp [hbinding]

/-- A field of a row, of the layers that it can come from. -/
theorem Built.cell_eq (id key f : String) :
    cell start.rows id key f = (cell seeds id key f).or
      (if lines.contains .emptyRepository = false ∧
          defaultKey runner doc workflow id start.payload = some key then
        (input.stored.get id f).or start.payload[f]?
      else none) := by
  rw [h.rows, cell_seedIndexed, cell_storeOverrides]
  congr 1
  cases hempty : lines.contains .emptyRepository with
  | true => simp
  | false =>
    simp only [Bool.false_eq_true, if_false, true_and, get_defaultRows]
    split_ifs <;> rfl

/-- A field of the payload, of the two layers that it can come from. -/
theorem Built.payload_eq (f : String) :
    start.payload[f]? =
      input.payload[f]?.or (samplePayload runner (validatedEntities doc workflow))[f]? := by
  rw [h.payload, getElem?_update]

end

/-- A line about the payload takes the last word from an input line only by popping. -/
theorem lastTold_payload {told : Option (Except Fault Json)}
    (h : lastTold (tellsInput runner doc f) lines = some told) :
    lastTold (tellsPayload runner doc f) lines = some told ∨
      lastTold (tellsPayload runner doc f) lines = some none := by
  refine lastTold_extend ?_ ?_ h
  · intro line told' htold
    rw [tellsPayload, htold]
  · intro line hquiet
    rw [tellsPayload, hquiet]
    dsimp only
    split_ifs
    · exact Or.inr rfl
    · exact Or.inl rfl

/-- The value of an input line of a run can be read. -/
theorem Built.exists_value (h : Built runner doc workflow lines start input seeds)
    {text : Except Fault Json}
    (htold : lastTold (tellsInput runner doc f) lines = some (some text)) :
    ∃ value, text = .ok value := by
  obtain ⟨line, hline, htells⟩ := exists_of_lastTold htold
  obtain ⟨before, behind, hstep⟩ :=
    exists_step_of_foldlM (foldlM_of_payloadFromGiven h.input_eq) hline
  cases line with
  | inputField name text' | field name text' =>
    simp only [tellsInput] at htells
    split_ifs at htells with hname
    subst hname
    cases htells
    simp only [payloadLine, bind_eq_ok] at hstep
    obtain ⟨value, hvalue, _⟩ := hstep
    exact ⟨value, hvalue⟩
  | noInputField name | noField name =>
    simp only [tellsInput] at htells
    split_ifs at htells
    cases htells
  | _ => cases htells

/-- A seeded row has no indexed field. -/
theorem Built.cell_defaultKey (h : Built runner doc workflow lines start input seeds)
    (hlines : classify runner doc given = .ok lines)
    (hkey : defaultKey runner doc workflow id start.payload = some key) (f : String) :
    cell seeds id key f = none := by
  apply (cell_of_indexedSeedsFromGiven h.seeds_eq id key f).2
  rw [lastTold_eq_none]
  intro line hline
  cases line with
  | storedIndexed name index field text =>
    obtain ⟨phrase, _, hphrase⟩ := (mem_mapM hlines).1 hline
    have hindex := index_of_checkGiven hphrase
    have hne : index ≠ key := by
      rintro rfl
      rw [defaultKey_ne_index hkey] at hindex
      cases hindex
    simp only [tellsIndexed]
    split
    · rw [if_neg]
      rintro ⟨_, heq, _⟩
      exact hne heq
    · rfl
  | _ => rfl

/-! ### The law -/

/-- If no layer undoes a line and none misses one, every line is visible. -/
theorem visible_of_effective (hlines : classify runner doc given = .ok lines)
    (h : Built runner doc workflow lines start input seeds)
    (heffective : Effective runner doc workflow lines) : Visible runner doc lines start := by
  constructor
  · intro f text htold
    obtain ⟨value, rfl⟩ := h.exists_value htold
    refine ⟨value, rfl, ?_⟩
    have hlast := (payload_of_payloadFromGiven h.input_eq f).1
    rw [h.payload_eq]
    rcases lastTold_payload htold with hpayload | hpopped
    · obtain ⟨_, ⟨⟩, hvalue⟩ := hlast _ hpayload
      rw [hvalue, Option.some_or]
    · rw [show input.payload[f]? = none from hlast _ hpopped, Option.none_or]
      exact heffective.kept f value htold hpopped
  · intro f htold
    have hdropped : input.payload[f]? = none := by
      apply (payload_of_payloadFromGiven h.input_eq f).1 none
      rcases lastTold_payload htold with hpayload | hpopped
      · exact hpayload
      · exact hpopped
    have hsample : (samplePayload runner (validatedEntities doc workflow))[f]? = none := by
      rw [← Option.not_isSome_iff_eq_none, isSome_samplePayload]
      exact heffective.unsampled f htold
    have hpayload : start.payload[f]? = none := by
      rw [h.payload_eq, hdropped, hsample]
      rfl
    refine ⟨hpayload, ?_⟩
    intro id key row hrow hstored hindexed
    have hcell : cell start.rows id key f = none := by
      rw [h.cell_eq, (cell_of_indexedSeedsFromGiven h.seeds_eq id key f).2 hindexed,
        (stored_of_payloadFromGiven h.input_eq id f).2 hstored, hpayload]
      split_ifs <;> rfl
    rwa [cell, hrow, Option.bind_some] at hcell
  · intro id f text htold
    obtain ⟨value, rfl, hvalue⟩ := (stored_of_payloadFromGiven h.input_eq id f).1 text htold
    have hcell : ∃ key, cell start.rows id key f = some value := by
      rcases heffective.seeded id f value htold with hseed | ⟨index, hindexed⟩
      · obtain ⟨key, hkey⟩ := (h.hasSeed_iff id).1 hseed
        refine ⟨key, ?_⟩
        rw [h.cell_eq, h.cell_defaultKey hlines hkey, if_pos ⟨h.not_empty htold, hkey⟩, hvalue]
        rfl
      · obtain ⟨_, ⟨⟩, hcell⟩ := (cell_of_indexedSeedsFromGiven h.seeds_eq id index f).1 _ hindexed
        refine ⟨index, ?_⟩
        rw [h.cell_eq, hcell]
        rfl
    obtain ⟨key, hcell⟩ := hcell
    exact ⟨value, rfl, key, Option.bind_eq_some_iff.1 hcell⟩
  · intro id index f text htold
    obtain ⟨value, rfl, hcell⟩ := (cell_of_indexedSeedsFromGiven h.seeds_eq id index f).1 text htold
    have hrow : cell start.rows id index f = some value := by
      rw [h.cell_eq, hcell]
      rfl
    exact ⟨value, rfl, Option.bind_eq_some_iff.1 hrow⟩
  · intro target text htold
    obtain ⟨status, rfl, hstatus⟩ := status_of_networkStubsFromGiven h.stubs_eq htold
    rw [Option.map_eq_some_iff] at hstatus
    obtain ⟨stub, hstub, rfl⟩ := hstatus
    rw [Start.answer, hstub]
    rfl
  · intro target key text htold
    obtain ⟨value, rfl, hbody⟩ := body_of_networkStubsFromGiven h.stubs_eq htold
    obtain ⟨stub, hstub, hvalue⟩ := Option.bind_eq_some_iff.1 hbody
    refine ⟨value, rfl, ?_⟩
    rw [Start.answer, hstub]
    exact hvalue
  · intro marker value htold
    rw [h.context]
    exact get_runContextFromGiven htold

/-- If every line is visible, no layer undoes one and none misses one. -/
theorem effective_of_visible (h : Built runner doc workflow lines start input seeds)
    (hvisible : Visible runner doc lines start) : Effective runner doc workflow lines := by
  constructor
  · intro f value htold hpopped
    obtain ⟨_, ⟨⟩, hvalue⟩ := hvisible.input f _ htold
    have hdropped : input.payload[f]? = none :=
      (payload_of_payloadFromGiven h.input_eq f).1 none hpopped
    rwa [h.payload_eq, hdropped, Option.none_or] at hvalue
  · intro f htold hsampled
    have hpayload := (hvisible.dropped f htold).1
    rw [h.payload_eq, Option.or_eq_none_iff] at hpayload
    rw [← isSome_samplePayload, hpayload.2] at hsampled
    cases hsampled
  · intro id f value htold
    obtain ⟨_, ⟨⟩, key, hrow⟩ := hvisible.stored id f _ htold
    have hcell : cell start.rows id key f = some value := Option.bind_eq_some_iff.2 hrow
    obtain ⟨hindexed, hquiet⟩ := cell_of_indexedSeedsFromGiven h.seeds_eq id key f
    rw [h.cell_eq] at hcell
    cases hlast : lastTold (tellsIndexed runner doc id key f) lines with
    | some told =>
      right
      obtain ⟨value', rfl, hseed⟩ := hindexed told hlast
      rw [hseed, Option.some_or] at hcell
      cases hcell
      exact ⟨key, hlast⟩
    | none =>
      left
      rw [hquiet hlast, Option.none_or] at hcell
      split_ifs at hcell with hseed
      exact (h.hasSeed_iff id).2 ⟨key, hseed.2⟩

/-- **Fixtures are what their lines say** exactly when no line pops what an earlier one set, no
validated entity has a sample of what was dropped, and there is a row for everything stored. -/
theorem visible_iff {c : Case} (h : Executes runner doc c lines start) :
    Visible runner doc lines start ↔ Effective runner doc c.workflow lines := by
  obtain ⟨hlines, hbuild, _⟩ := h
  obtain ⟨input, seeds, hbuilt⟩ := exists_built hbuild
  constructor
  · exact effective_of_visible hbuilt
  · exact visible_of_effective hlines hbuilt

/-! ### A registration -/

/-- The plain Python and language, with a sample of an Email. -/
def plainRunner : Runner where
  py := .ascii
  lang := .plain
  repr := fun _ => ""
  sample := fun type => if type = "Email" then .str "user@example.com" else .null
  isUpper := Char.isUpper
  lower := fun text => String.ofList (text.toList.map Char.toLower)

/-- A workflow that loads a user and validates it. -/
def registration : Document where
  entities :=
    [{ id := "entity.user"
       name := "User"
       fields := [⟨"email", "Email", false, false, none⟩] }]
  events := []
  refinements := []
  workflows :=
    [{ id := "wf.register"
       name := "Register"
       body :=
         [.step ⟨"step.load", "load user",
            [.repositoryCall "repo.user" "entity.user" .read none false none]⟩,
          .step ⟨"step.validate", "validate user",
            [.validation "validation.user" "semantic-types" "entity.user"]⟩]
       constraints := {} }]

theorem emailField_ne_nil : ["email", "Email"] ≠ [] := by decide

theorem run_ne_nil : ["run"] ≠ [] := by decide

/-- The declarations of the registration, with one `spec` block. -/
def registrationDecls (given : List Front.Line) : List Front.Decl :=
  [{ Front.Decl.new .entity "User" 1 with
     clauses := [("field", [⟨3, ["email", "Email"], 4, emailField_ne_nil⟩])] },
   { Front.Decl.new .workflow "Register" 4 with
     clauses := [("spec", [])]
     specs :=
       [{ given := given
          «when» := [⟨9, ["run"], 6, run_ne_nil⟩]
          expect := [⟨11, ["completed"], 6, by decide⟩]
          lineno := 6
          opened := []
          indent := 2
          sectionIndent := none }] }]

/-- The case of the block. -/
def registrationCase (given : List String) : Case where
  name := "Register spec"
  workflow := "wf.register"
  given := given
  «when» := ["run"]
  expect := ["completed"]

/-- What a case is run from, if it is. -/
def startOf (c : Case) : Start :=
  match classify plainRunner registration c.given with
  | .ok lines =>
    match build plainRunner registration c.workflow lines with
    | .ok start => start
    | .error _ => ⟨∅, Tables.empty, ∅, {}⟩
  | .error _ => ⟨∅, Tables.empty, ∅, {}⟩

/-- A loaded user differs from the one that registers. -/
theorem visible_registration :
    Visible plainRunner registration
      [.field "email" "a@b.c", .stored "user" "email" "d@e.f"]
      (startOf (registrationCase ["email a@b.c", "stored user email d@e.f"])) := by
  have hexecutes : Executes plainRunner registration
      (registrationCase ["email a@b.c", "stored user email d@e.f"])
      [.field "email" "a@b.c", .stored "user" "email" "d@e.f"]
      (startOf (registrationCase ["email a@b.c", "stored user email d@e.f"])) :=
    ⟨by decide +kernel, rfl, rfl⟩
  apply (visible_iff hexecutes).2
  have hpayload : ∀ f, lastTold (tellsPayload plainRunner registration f)
      [.field "email" "a@b.c", .stored "user" "email" "d@e.f"] =
        lastTold (tellsInput plainRunner registration f)
          [.field "email" "a@b.c", .stored "user" "email" "d@e.f"] := by
    intro f
    by_cases hf : "email" = f <;> simp [lastTold_cons, tellsPayload, tellsInput, Given.pops, hf]
  have hnone : ∀ f, lastTold (tellsInput plainRunner registration f)
      [.field "email" "a@b.c", .stored "user" "email" "d@e.f"] ≠ some none := by
    intro f
    by_cases hf : "email" = f <;> simp [lastTold_cons, tellsInput, hf]
  constructor
  · intro f value _ hpopped
    rw [hpayload] at hpopped
    exact absurd hpopped (hnone f)
  · intro f hdropped
    exact absurd hdropped (hnone f)
  · intro id f value htold
    left
    obtain ⟨line, hline, htells⟩ := exists_of_lastTold htold
    simp only [List.mem_cons, List.not_mem_nil, or_false] at hline
    rcases hline with rfl | rfl
    · cases htells
    · have huser : entityNamed registration "user" = .ok
          ⟨"entity.user", "User", [⟨"email", "Email", false, false, none⟩]⟩ := by decide
      simp only [tellsStored, huser] at htells
      split_ifs at htells with hsubject
      obtain ⟨rfl, _⟩ := hsubject
      refine ⟨by decide, ?_⟩
      intro f hsource
      have hbare : lookupKeySource registration "wf.register" "entity.user" = none := by
        decide +kernel
      rw [show (registrationCase _).workflow = "wf.register" from rfl, hbare] at hsource
      cases hsource

/-- A validated entity brings back what a case drops. -/
theorem not_visible :
    ¬ ∀ (runner : Runner) (decls : List Front.Decl) (doc : Document) (cases : List Case) (c : Case)
      (lines : List Given) (start : Start),
      extract runner decls = .ok cases → c ∈ cases → Executes runner doc c lines start →
        Visible runner doc lines start := by
  intro h
  have hexecutes : Executes plainRunner registration (registrationCase ["no email"])
      [.noField "email"] (startOf (registrationCase ["no email"])) :=
    ⟨by decide +kernel, rfl, rfl⟩
  have hvisible := h plainRunner (registrationDecls [⟨8, ["no", "email"], 6, by decide⟩])
    registration [registrationCase ["no email"]] (registrationCase ["no email"]) _ _
    (by decide) (List.mem_singleton_self _) hexecutes
  obtain ⟨input, seeds, hbuilt⟩ := exists_built hexecutes.2.1
  apply (effective_of_visible hbuilt hvisible).unsampled "email" rfl
  have hvalidated : validatedEntities registration (registrationCase ["no email"]).workflow =
      [⟨"entity.user", "User", [⟨"email", "Email", false, false, none⟩]⟩] := by
    decide
  rw [hvalidated]
  exact ⟨_, List.mem_singleton_self _, _, List.mem_singleton_self _, rfl, rfl, rfl⟩

end Lnpl.Spec
