import Lnpl.Spec.Accounts
import Lnpl.Spec.Equiv.Fixture
import Mathlib.Data.List.Dedup

/-!
# Given lines at both stages

A given line means the same to `extract`, which has the declarations, as to the runner, which has the
entities that they lower to (`checkGiven_of_lowered`).  What the runner builds of classified lines it
builds of them exactly when their words can be read (`exists_build_iff`).
-/

namespace Lnpl.Spec

open Front (Decl)
open Interp (Json Dict Document Entity)
open Lib

variable {runner : Runner} {doc : Document} {workflow : String}

/-! ### One meaning -/

/-- Two entries that a given line cannot tell apart. -/
structure SameEntry (a b : SchemaEntry) : Prop where
  name : a.name = b.name
  binding : a.binding = b.binding
  fields : ∀ f, f ∈ a.fields ↔ f ∈ b.fields

variable {decls : List Decl} {a b schema : List SchemaEntry} {place phrase word : String}
  {g line : Given} {tokens : List String}

theorem sameEntries_of_lowered (h : Lowered decls doc) :
    List.Forall₂ SameEntry (schemaFromDecls decls) (schemaFromNodes doc.entities) := by
  unfold schemaFromDecls schemaFromNodes
  rw [List.forall₂_map_left_iff, List.forall₂_map_right_iff]
  apply List.Forall₂.imp _ h
  intro d e hlowers
  constructor
  · have hne : e.name ≠ "" := by
      rw [hlowers.name]
      exact hlowers.named
    show d.name = if e.name = "" then "?" else e.name
    rw [if_neg hne, hlowers.name]
  · show Document.bindingName d.name = Document.bindingName e.name
    rw [hlowers.name]
  · intro f
    show f ∈ ((clause d "field").map Front.Line.head).dedup ↔ f ∈ e.fields.map Interp.Field.name
    rw [hlowers.fields, List.mem_dedup]

/-- The entry that a test of the names finds. -/
theorem find?_sameEntries (h : List.Forall₂ SameEntry a b) (name : String) :
    Option.Rel SameEntry (a.find? fun entry => entry.name = name || entry.binding = name)
      (b.find? fun entry => entry.name = name || entry.binding = name) := by
  induction h with
  | nil => exact .none
  | @cons x y xs ys hxy hrest ih =>
    rw [List.find?_cons, List.find?_cons, hxy.name, hxy.binding]
    cases hfound : decide (y.name = name) || decide (y.binding = name) with
    | true => exact .some hxy
    | false => exact ih

theorem contains_fields (h : List.Forall₂ SameEntry a b) (f : String) :
    ((a.flatMap SchemaEntry.fields).dedup).contains f =
      ((b.flatMap SchemaEntry.fields).dedup).contains f := by
  rw [Bool.eq_iff_iff, List.contains_iff_mem, List.contains_iff_mem, List.mem_dedup, List.mem_dedup]
  induction h with
  | nil => rfl
  | cons hxy _ ih => rw [List.flatMap_cons, List.flatMap_cons, List.mem_append, List.mem_append, ih,
      hxy.fields]

/-- The refusals of two stages may differ in their texts only. -/
def SameGiven (x y : Except String Given) : Prop := ∀ g, x = .ok g → y = .ok g

theorem checkStored_same (h : List.Forall₂ SameEntry a b) (phrase : String) (tokens : List String) :
    SameGiven (checkStored runner a phrase tokens) (checkStored runner b phrase tokens) := by
  intro g hg
  unfold checkStored at hg ⊢
  split at hg
  · next token field value =>
    dsimp only at hg ⊢
    have hfind := find?_sameEntries h (((indexedEntity runner.py token).map Prod.fst).getD token)
    split at hg
    · cases hg
    · next target htarget =>
      rw [htarget] at hfind
      cases hfind' : b.find? fun entry =>
          entry.name = ((indexedEntity runner.py token).map Prod.fst).getD token ||
            entry.binding = ((indexedEntity runner.py token).map Prod.fst).getD token with
      | none =>
        rw [hfind'] at hfind
        cases hfind
      | some target' =>
        rw [hfind'] at hfind
        cases hfind with
        | some hsame =>
          have hcontains : target.fields.contains field = target'.fields.contains field := by
            rw [Bool.eq_iff_iff, List.contains_iff_mem, List.contains_iff_mem, hsame.fields]
          rw [hcontains] at hg
          split_ifs at hg with hfield
          dsimp only
          rw [if_neg hfield]
          exact hg
  · cases hg

variable {fields : List String} {α : Type} {name : String} {base : Option String} {c : Case}

theorem checkField_same {fields' : List String} (h : ∀ f, fields.contains f = fields'.contains f)
    (phrase first second : String) :
    SameGiven (checkField runner fields phrase first second)
      (checkField runner fields' phrase first second) := by
  intro g hg
  unfold checkField notInputField at hg ⊢
  simp only [h] at hg
  dsimp only at hg ⊢
  cases hfirst : after? "input." first with
  | some name =>
    rw [hfirst] at hg
    dsimp only at hg ⊢
    split_ifs at hg ⊢ with hin
    exact hg
  | none =>
    cases hsecond : after? "input." second with
    | some name =>
      rw [hfirst, hsecond] at hg
      dsimp only at hg ⊢
      split_ifs at hg ⊢ with hin <;> exact hg
    | none =>
      rw [hfirst, hsecond] at hg
      dsimp only at hg ⊢
      split_ifs at hg ⊢ with hin <;> exact hg

theorem mapError_eq_ok {ε ε' : Type} {f : ε → ε'} {x : Except ε α} {a : α} :
    x.mapError f = .ok a ↔ x = .ok a := by
  cases x with
  | error e => exact ⟨nofun, nofun⟩
  | ok b =>
    constructor
    · intro h
      cases h
      rfl
    · intro h
      cases h
      rfl

/-- A given line that one stage accepts is one that the other accepts, and means the same. -/
theorem checkGiven_same (h : List.Forall₂ SameEntry a b) {place' : String}
    (hg : checkGiven runner a place phrase = .ok g) :
    checkGiven runner b place' phrase = .ok g := by
  unfold checkGiven at hg ⊢
  dsimp only at hg ⊢
  rw [mapError_eq_ok] at hg ⊢
  cases htokens : Front.tokens phrase with
  | nil =>
    rw [htokens] at hg
    cases hg
  | cons first rest =>
    rw [htokens] at hg
    dsimp only at hg ⊢
    split_ifs at hg ⊢
    · exact hg
    · exact hg
    · exact checkStored_same h phrase _ g hg
    · exact hg
    · cases hrun : after? "run." first with
      | some marker =>
        rw [hrun] at hg
        exact hg
      | none =>
        rw [hrun] at hg
        cases rest with
        | nil => cases hg
        | cons second rest =>
          cases rest with
          | nil => exact checkField_same (contains_fields h) phrase first second g hg
          | cons third rest => cases hg

/-- What `extract` accepts of a line, the runner accepts. -/
theorem checkGiven_of_lowered (h : Lowered decls doc)
    (hg : checkGiven runner (schemaFromDecls decls) place phrase = .ok g) :
    checkGiven runner (schemaFromNodes doc.entities) "" phrase = .ok g :=
  checkGiven_same (sameEntries_of_lowered h) hg

/-! ### Names -/

/-- What the schema says of a line that it accepts. -/
def Given.Known (schema : List SchemaEntry) (phrase : String) : Given → Prop
  | .emptyRepository => phrase = "empty repository"
  | .stored name _ _ | .storedIndexed name _ _ _ =>
    ∃ entry ∈ schema, entry.name = name ∨ entry.binding = name
  | _ => True

theorem known_of_checkStored (h : checkStored runner schema phrase tokens = .ok g) :
    g.Known schema phrase := by
  unfold checkStored at h
  split at h
  · dsimp only at h
    split at h
    · cases h
    · next target htarget =>
      split_ifs at h
      have hnames := List.find?_some htarget
      rw [Bool.or_eq_true, decide_eq_true_eq, decide_eq_true_eq] at hnames
      split at h
      · next name index hindexed =>
        cases h
        rw [hindexed] at hnames
        exact ⟨target, List.mem_of_find?_eq_some htarget, by rwa [hindexed]⟩
      · next hindexed =>
        cases h
        rw [hindexed] at hnames
        exact ⟨target, List.mem_of_find?_eq_some htarget, by rwa [hindexed]⟩
  · cases h

theorem known_of_checkCall (h : checkCall runner phrase tokens = .ok g) :
    g.Known schema phrase := by
  unfold checkCall at h
  dsimp only at h
  split at h
  · split_ifs at h
    cases h
    trivial
  · split at h
    · cases h
    · split_ifs at h
      cases h
      trivial
  · cases h

theorem known_of_checkRunGiven {marker : String}
    (h : checkRunGiven runner phrase marker tokens = .ok g) :
    g.Known schema phrase := by
  unfold checkRunGiven at h
  split at h
  · split_ifs at h
    cases h
    trivial
  · split at h
    · cases h
      trivial
    · cases h
  · cases h

theorem known_of_checkField {first second : String}
    (h : checkField runner fields phrase first second = .ok g) : g.Known schema phrase := by
  unfold checkField notInputField at h
  dsimp only at h
  split at h
  · split_ifs at h
    cases h
    trivial
  · split_ifs at h <;> cases h <;> trivial
  · split_ifs at h <;> cases h <;> trivial

/-- What a line names is in the schema it is checked by. -/
theorem known_of_checkGiven (h : checkGiven runner schema place phrase = .ok g) :
    g.Known schema phrase := by
  unfold checkGiven at h
  dsimp only at h
  rw [mapError_eq_ok] at h
  split at h
  · cases h
  · split_ifs at h with hempty
    · cases h
      exact hempty
    · cases h
      trivial
    · exact known_of_checkStored h
    · exact known_of_checkCall h
    · split at h
      · exact known_of_checkRunGiven h
      · exact known_of_checkField h
      · cases h

/-- A name of the schema names an entity of the document. -/
theorem exists_entityNamed
    (h : ∃ entry ∈ schemaFromNodes doc.entities, entry.name = name ∨ entry.binding = name)
    (hne : ∀ e ∈ doc.entities, e.name ≠ "") : ∃ e, entityNamed doc name = .ok e := by
  obtain ⟨entry, hentry, hname⟩ := h
  obtain ⟨e, he, rfl⟩ := List.mem_map.1 hentry
  dsimp only at hname
  rw [if_neg (hne e he)] at hname
  unfold entityNamed
  cases hbyName : doc.entities.reverse.find? fun e => e.name = name with
  | some found => exact ⟨found, rfl⟩
  | none =>
    cases hbyBinding : doc.entities.reverse.find? fun e => Document.bindingName e.name = name with
    | some found => exact ⟨found, rfl⟩
    | none =>
      rw [List.find?_eq_none] at hbyName hbyBinding
      have hmem : e ∈ doc.entities.reverse := List.mem_reverse.2 he
      rcases hname with hname | hname
      · exact absurd (decide_eq_true hname) (hbyName e hmem)
      · exact absurd (decide_eq_true hname) (hbyBinding e hmem)

theorem named_of_lowered (h : Lowered decls doc) : ∀ e ∈ doc.entities, e.name ≠ "" := by
  unfold Lowered at h
  generalize doc.entities = entities at h ⊢
  generalize (decls.filter fun d => decide (d.kind = .entity)) = declared at h
  induction h with
  | nil => exact nofun
  | @cons d e ds es hlowers _ ih =>
    intro e' he'
    rcases List.mem_cons.1 he' with rfl | he'
    · rw [hlowers.name]
      exact hlowers.named
    · exact ih e' he'

/-! ### Words -/

theorem exists_toInt_iff : (∃ value, toInt runner word = .ok value) ↔ ReadsInt runner word := by
  unfold toInt ReadsInt
  cases Interp.intText runner.py word <;> simp

theorem exists_statusOf_iff {word : String} :
    (∃ status, statusOf runner word = .ok status) ↔ ReadsInt runner word := by
  unfold statusOf ReadsInt
  cases Interp.intText runner.py word <;> simp

theorem exists_moneyLiteralOrRaise_iff :
    (∃ amount, moneyLiteralOrRaise runner word place = .ok amount) ↔ WritesMoney runner word := by
  unfold moneyLiteralOrRaise WritesMoney
  cases parseMoneyLiteral runner word with
  | error message => simp
  | ok amount => cases amount <;> simp

theorem exists_coerce_iff {word : String} :
    (∃ value, coerce runner word = .ok value) ↔ Converts runner word := by
  unfold coerce Converts
  by_cases hdigits : readsAsInt runner.py word = true
  · rw [if_pos hdigits, exists_toInt_iff]
    exact ⟨fun h _ => h, fun h => h hdigits⟩
  · rw [if_neg hdigits]
    exact ⟨fun _ h => absurd h hdigits, fun _ => ⟨_, rfl⟩⟩

theorem exists_storedValue_iff :
    (∃ value, storedValue runner word base = .ok value) ↔ ReadsStored runner word base := by
  unfold storedValue ReadsStored
  split_ifs
  · exact exists_moneyLiteralOrRaise_iff
  · exact exists_coerce_iff

theorem exists_typedValue_iff :
    (∃ value, typedValue runner word base = .ok value) ↔ ReadsInput runner word base := by
  unfold typedValue ReadsInput Converts
  by_cases hinteger : base = some "Integer"
  · have hmoney : base ≠ some "Money" := by simp [hinteger]
    by_cases hdigits : readsAsInt runner.py word = true
    · simp [hinteger, hdigits, exists_toInt_iff]
    · simp [hinteger, hdigits]
  · by_cases hmoney : base = some "Money"
    · simp [hmoney, exists_moneyLiteralOrRaise_iff]
    · simp [hinteger, hmoney]

/-! ### Builds -/

/-- A given line that names an entity of the document, if it names one. -/
def Given.Named (doc : Document) : Given → Prop
  | .stored name _ _ | .storedIndexed name _ _ _ => ∃ e, entityNamed doc name = .ok e
  | _ => True

/-- A stored line has an entity, and a value if its word can be read. -/
theorem exists_stored_iff {f : String} {make : Entity → Json → α}
    (hnamed : ∃ e, entityNamed doc name = .ok e) :
    (∃ a, (do
      let e ← entityNamed doc name
      let value ← storedValue runner word (entityFieldBase doc e f)
      return make e value : Except Fault α) = .ok a) ↔
      ∀ e, entityNamed doc name = .ok e → ReadsStored runner word (entityFieldBase doc e f) := by
  obtain ⟨e, he⟩ := hnamed
  simp only [he, bind_eq_ok, pure_eq_ok]
  constructor
  · rintro ⟨_, _, ⟨⟩, value, hvalue, -⟩ e' ⟨⟩
    exact exists_storedValue_iff.1 ⟨value, hvalue⟩
  · intro h
    obtain ⟨value, hvalue⟩ := exists_storedValue_iff.2 (h e rfl)
    exact ⟨_, e, rfl, value, hvalue, rfl⟩

/-- The line sets its field of the payload, or stores its field of a default row. -/
def Given.ReadsPayload (runner : Runner) (doc : Document) : Given → Prop
  | .storedIndexed .. | .networkStub .. | .networkStubBody .. => True
  | line => line.Reads runner doc

/-- The line stores its field of an indexed row. -/
def Given.ReadsIndexed (runner : Runner) (doc : Document) : Given → Prop
  | .storedIndexed name index f word => (Given.storedIndexed name index f word).Reads runner doc
  | _ => True

/-- The line gives its part of an answer of the network. -/
def Given.ReadsNetwork (runner : Runner) (doc : Document) : Given → Prop
  | .networkStub target status => (Given.networkStub target status).Reads runner doc
  | .networkStubBody target status key word =>
    (Given.networkStubBody target status key word).Reads runner doc
  | _ => True

theorem Given.reads_iff :
    line.Reads runner doc ↔ line.ReadsPayload runner doc ∧ line.ReadsIndexed runner doc ∧
      line.ReadsNetwork runner doc := by
  cases line <;> simp [Given.ReadsPayload, Given.ReadsIndexed, Given.ReadsNetwork, Given.Reads]

theorem exists_payloadLine_iff {input : Input} (hnamed : line.Named doc) :
    (∃ input', payloadLine runner doc input line = .ok input') ↔
      line.ReadsPayload runner doc := by
  cases line with
  | stored name f word =>
    exact exists_stored_iff hnamed
  | inputField name word | field name word =>
    refine Iff.trans ?_ exists_typedValue_iff
    simp only [payloadLine, bind_eq_ok, pure_eq_ok]
    constructor
    · rintro ⟨_, value, hvalue, -⟩
      exact ⟨value, hvalue⟩
    · rintro ⟨value, hvalue⟩
      exact ⟨_, value, hvalue, rfl⟩
  | _ => exact ⟨fun _ => trivial, fun _ => ⟨_, rfl⟩⟩

theorem exists_indexedLine_iff {seeds : Tables String String Dict} (hnamed : line.Named doc) :
    (∃ seeds', indexedLine runner doc seeds line = .ok seeds') ↔
      line.ReadsIndexed runner doc := by
  cases line with
  | storedIndexed name index f word => exact exists_stored_iff hnamed
  | _ => exact ⟨fun _ => trivial, fun _ => ⟨_, rfl⟩⟩

theorem exists_networkLine_iff {stubs : Stubs} :
    (∃ stubs', networkLine runner stubs line = .ok stubs') ↔ line.ReadsNetwork runner doc := by
  cases line with
  | networkStub target status =>
    refine Iff.trans ?_ exists_statusOf_iff
    simp only [networkLine, bind_eq_ok, pure_eq_ok]
    constructor
    · rintro ⟨_, n, hn, -⟩
      exact ⟨n, hn⟩
    · rintro ⟨n, hn⟩
      exact ⟨_, n, hn, rfl⟩
  | networkStubBody target status key word =>
    have hstatus := @exists_statusOf_iff runner status
    have hword := @exists_coerce_iff runner word
    simp only [networkLine, bind_eq_ok, pure_eq_ok]
    constructor
    · rintro ⟨_, value, hvalue, n, hn, -⟩
      exact ⟨hstatus.1 ⟨n, hn⟩, hword.1 ⟨value, hvalue⟩⟩
    · rintro ⟨hreads, hconverts⟩
      obtain ⟨n, hn⟩ := hstatus.2 hreads
      obtain ⟨value, hvalue⟩ := hword.2 hconverts
      exact ⟨_, value, hvalue, n, hn, rfl⟩
  | _ => exact ⟨fun _ => trivial, fun _ => ⟨_, rfl⟩⟩

/-- `_payload_from_given` contradicts itself. -/
def Contradictory (lines : List Given) : Prop :=
  (lines.any Given.overrides && lines.contains .emptyRepository) = true

theorem exists_payloadFromGiven_iff {lines : List Given} (hnamed : ∀ line ∈ lines, line.Named doc)
    (hagree : ¬ Contradictory lines) :
    (∃ input, payloadFromGiven runner doc lines = .ok input) ↔
      ∀ line ∈ lines, line.ReadsPayload runner doc := by
  have hfold : (∃ input, lines.foldlM (payloadLine runner doc)
      { payload := samplePayload runner doc.entityNode.toList
        stored := Tables.empty } = .ok input) ↔ ∀ line ∈ lines, line.ReadsPayload runner doc := by
    apply exists_foldlM_iff
    intro line hline input
    exact exists_payloadLine_iff (hnamed line hline)
  rw [← hfold]
  constructor
  · rintro ⟨input, h⟩
    exact ⟨input, foldlM_of_payloadFromGiven h⟩
  · rintro ⟨input, h⟩
    refine ⟨input, ?_⟩
    simp only [payloadFromGiven, h, bind_eq_ok]
    refine ⟨input, rfl, ?_⟩
    unfold Contradictory at hagree
    rw [if_neg hagree]
    rfl

theorem exists_indexedSeedsFromGiven_iff {lines : List Given}
    (hnamed : ∀ line ∈ lines, line.Named doc) :
    (∃ seeds, indexedSeedsFromGiven runner doc lines = .ok seeds) ↔
      ∀ line ∈ lines, line.ReadsIndexed runner doc := by
  unfold indexedSeedsFromGiven
  apply exists_foldlM_iff
  intro line hline seeds
  exact exists_indexedLine_iff (hnamed line hline)

theorem exists_networkStubsFromGiven_iff {lines : List Given} :
    (∃ stubs, networkStubsFromGiven runner lines = .ok stubs) ↔
      ∀ line ∈ lines, line.ReadsNetwork runner doc := by
  unfold networkStubsFromGiven
  apply exists_foldlM_iff
  intro line _ stubs
  exact exists_networkLine_iff

/-- What a case starts from is built exactly if the words of its lines can be read. -/
theorem exists_build_iff {lines : List Given} (hnamed : ∀ line ∈ lines, line.Named doc)
    (hagree : ¬ Contradictory lines) :
    (∃ start, build runner doc workflow lines = .ok start) ↔
      ∀ line ∈ lines, line.Reads runner doc := by
  have hpayload := @exists_payloadFromGiven_iff runner doc lines hnamed hagree
  have hindexed := @exists_indexedSeedsFromGiven_iff runner doc lines hnamed
  have hnetwork := @exists_networkStubsFromGiven_iff runner doc lines
  simp only [build, bind_eq_ok, pure_eq_ok]
  constructor
  · rintro ⟨_, input, hinput, seeds, hseeds, stubs, hstubs, -⟩ line hline
    exact Given.reads_iff.2 ⟨hpayload.1 ⟨input, hinput⟩ line hline,
      hindexed.1 ⟨seeds, hseeds⟩ line hline, hnetwork.1 ⟨stubs, hstubs⟩ line hline⟩
  · intro h
    obtain ⟨input, hinput⟩ := hpayload.2 fun line hline => (Given.reads_iff.1 (h line hline)).1
    obtain ⟨seeds, hseeds⟩ := hindexed.2 fun line hline => (Given.reads_iff.1 (h line hline)).2.1
    obtain ⟨stubs, hstubs⟩ := hnetwork.2 fun line hline => (Given.reads_iff.1 (h line hline)).2.2
    exact ⟨_, input, hinput, seeds, hseeds, stubs, hstubs, rfl⟩

/-! ### What `extract` has accepted -/

theorem named_of_checkGiven (h : Lowered decls doc)
    (hline : checkGiven runner (schemaFromNodes doc.entities) place phrase = .ok line) :
    line.Named doc := by
  have hknown := known_of_checkGiven hline
  cases line with
  | stored name f word | storedIndexed name index f word =>
    exact exists_entityNamed hknown (named_of_lowered h)
  | _ => trivial

/-- What `_validate_given` accepts, the runner classifies, to lines that name entities and do not
contradict each other. -/
theorem classify_of_validateGiven (h : Lowered decls doc) {given : List String}
    (hvalid : validateGiven runner given decls place = .ok ()) :
    ∃ lines, classify runner doc given = .ok lines ∧ (∀ line ∈ lines, line.Named doc) ∧
      ¬ Contradictory lines := by
  simp only [validateGiven, bind_eq_ok] at hvalid
  obtain ⟨lines, hlines, hagree⟩ := hvalid
  have hclassify : List.Forall₂ (fun phrase line =>
      checkGiven runner (schemaFromNodes doc.entities) "" phrase = .ok line) given lines := by
    apply List.Forall₂.imp _ (mapM_eq_ok.1 hlines)
    intro phrase line hline
    simp only [bind_eq_ok, pure_eq_ok] at hline
    obtain ⟨g, hg, _, _, rfl⟩ := hline
    exact checkGiven_of_lowered h hg
  have hmem : ∀ line ∈ lines, ∃ phrase ∈ given,
      checkGiven runner (schemaFromNodes doc.entities) "" phrase = .ok line := by
    intro line hline
    exact (mem_mapM (mapM_eq_ok.2 hclassify)).1 hline
  refine ⟨lines, mapM_eq_ok.2 hclassify, ?_, ?_⟩
  · intro line hline
    obtain ⟨phrase, -, hphrase⟩ := hmem line hline
    exact named_of_checkGiven h hphrase
  · intro hcontra
    unfold Contradictory at hcontra
    rw [Bool.and_eq_true, List.contains_iff_mem] at hcontra
    obtain ⟨hoverrides, hempty⟩ := hcontra
    have hstores : lines.any Given.stores = true := by
      rw [List.any_eq_true] at hoverrides ⊢
      obtain ⟨line, hline, hover⟩ := hoverrides
      refine ⟨line, hline, ?_⟩
      cases line <;> first | rfl | cases hover
    have hphrase : given.contains "empty repository" = true := by
      obtain ⟨phrase, hphrase, hchecked⟩ := hmem _ hempty
      have hknown : phrase = "empty repository" := known_of_checkGiven hchecked
      rw [List.contains_iff_mem, ← hknown]
      exact hphrase
    rw [if_pos (by rw [hstores, hphrase]; rfl)] at hagree
    cases hagree

theorem validateGiven_of_extractBlock {d : Decl} {blocks i : Nat} {block : Front.Spec}
    (h : extractBlock runner decls d blocks i block = .ok c) :
    ∃ place, validateGiven runner c.given decls place = .ok () := by
  dsimp only [extractBlock] at h
  by_cases hwhen : block.when.isEmpty = true
  · rw [if_pos hwhen] at h
    cases h
  by_cases hexpect : (block.expect.map fun line => Front.unwords line.tokens).isEmpty = true
  · rw [if_neg hwhen, if_pos hexpect] at h
    cases h
  rw [if_neg hwhen, if_neg hexpect] at h
  obtain ⟨_, hvalid, h⟩ := bind_eq_ok.1 h
  obtain ⟨_, -, h⟩ := bind_eq_ok.1 h
  obtain rfl := pure_eq_ok.1 h
  exact ⟨_, hvalid⟩

/-- The given lines of an extracted case have been validated. -/
theorem validateGiven_of_extract {cases : List Case} (h : extract runner decls = .ok cases)
    (hc : c ∈ cases) :
    ∃ place, validateGiven runner c.given decls place = .ok () := by
  simp only [extract, bind_eq_ok, pure_eq_ok] at h
  obtain ⟨blocks, hblocks, rfl⟩ := h
  obtain ⟨block, hblock, hc⟩ := List.mem_flatten.1 hc
  obtain ⟨d, -, hd⟩ := (mem_mapM hblocks).1 hblock
  unfold extractDecl at hd
  split_ifs at hd
  · cases hd
    cases hc
  · dsimp only at hd
    split_ifs at hd
    obtain ⟨⟨spec, i⟩, -, hspec⟩ := (mem_mapM hd).1 hc
    exact validateGiven_of_extractBlock hspec

end Lnpl.Spec
