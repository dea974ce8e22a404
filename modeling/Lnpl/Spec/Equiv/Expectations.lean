import Lnpl.Spec.Accounts

/-!
# Expectations that are refused or misread

Every reader of an expectation refuses exactly the lines that `Expectation.Refused` describes, and
ends in another exception on exactly those that `Expectation.Misread` does (`judged_check`).
-/

namespace Lnpl.Spec

open Interp (Exc)
open Lib

variable {α β : Type} {runner : Runner} {compiled : Compiled} {obs : Observed} {phrase : String}

/-! ### Judgements -/

/-- A reader refuses in one case, and ends in another exception in another. -/
structure Judged (x : Except Raised α) (refused misread : Prop) : Prop where
  refused : refused ↔ ∃ e, x = .error e ∧ e.isSpecError = true
  misread : misread ↔ ∃ e, x = .error e ∧ e.isSpecError = false

theorem judged_ok (a : α) : Judged (.ok a : Except Raised α) False False :=
  ⟨⟨nofun, nofun⟩, ⟨nofun, nofun⟩⟩

variable {e : Raised} {refused' misread' : Prop} {tokens : List String}

theorem judged_stop (he : e.isSpecError = true) :
    Judged (.error e : Except Raised α) True False := by
  constructor
  · exact ⟨fun _ => ⟨e, rfl, he⟩, fun _ => trivial⟩
  · refine ⟨nofun, ?_⟩
    rintro ⟨e', ⟨⟩, hother⟩
    rw [he] at hother
    cases hother

theorem judged_refuse (message : String) : Judged (refuse message : Except Raised α) True False :=
  judged_stop rfl

theorem judged_raise (he : e.isSpecError = false) :
    Judged (.error e : Except Raised α) False True := by
  constructor
  · refine ⟨nofun, ?_⟩
    rintro ⟨e', ⟨⟩, hspec⟩
    rw [he] at hspec
    cases hspec
  · exact ⟨fun _ => ⟨e, rfl, he⟩, fun _ => trivial⟩

variable {x : Except Raised α} {refused misread : Prop}

theorem Judged.congr (h : Judged x refused misread) (hrefused : refused' ↔ refused)
    (hmisread : misread' ↔ misread) : Judged x refused' misread' :=
  ⟨hrefused.trans h.refused, hmisread.trans h.misread⟩

/-- A reader that has returned is judged no further. -/
theorem Judged.of_ok (h : Judged x refused misread) {a : α} (hx : x = .ok a) :
    ¬ refused ∧ ¬ misread := by
  constructor
  · intro hr
    obtain ⟨e, he, -⟩ := h.refused.1 hr
    rw [hx] at he
    cases he
  · intro hm
    obtain ⟨e, he, -⟩ := h.misread.1 hm
    rw [hx] at he
    cases he

/-- What follows a reader is reached only if it neither refuses nor misreads. -/
theorem Judged.bind {f : α → Except Raised β} (hx : Judged x refused misread)
    (hf : ∀ a, Judged (f a) refused' misread') :
    Judged (x >>= f) (refused ∨ ¬ misread ∧ refused') (misread ∨ ¬ refused ∧ misread') := by
  cases hread : x with
  | ok a =>
    obtain ⟨hr, hm⟩ := hx.of_ok hread
    exact (hf a).congr (by tauto) (by tauto)
  | error e =>
    have hraised : (Except.error e : Except Raised α) >>= f = .error e := rfl
    rw [hraised]
    cases hspec : e.isSpecError with
    | true =>
      have hr : refused := hx.refused.2 ⟨e, hread, hspec⟩
      have hm : ¬ misread := by
        rw [hx.misread, hread]
        rintro ⟨_, ⟨⟩, hother⟩
        rw [hspec] at hother
        cases hother
      exact (judged_stop hspec).congr (by tauto) (by tauto)
    | false =>
      have hm : misread := hx.misread.2 ⟨e, hread, hspec⟩
      have hr : ¬ refused := by
        rw [hx.refused, hread]
        rintro ⟨_, ⟨⟩, hother⟩
        rw [hspec] at hother
        cases hother
      exact (judged_raise hspec).congr (by tauto) (by tauto)

/-- What is done with the value of a reader neither refuses nor misreads. -/
theorem Judged.map (h : Judged x refused misread) (f : α → β) :
    Judged (do return f (← x) : Except Raised β) refused misread :=
  (h.bind fun a => judged_ok (f a)).congr (by tauto) (by tauto)

/-! ### Words -/

theorem judged_intOf (word : String) :
    Judged (intOf runner word) False (¬ ReadsInt runner word) := by
  unfold intOf ReadsInt
  cases Interp.intText runner.py word with
  | some n => exact (judged_ok n).congr Iff.rfl (by simp)
  | none => exact (judged_raise rfl).congr Iff.rfl (by simp)

theorem judged_durationOf (word : String) :
    Judged (durationOf runner word) False (¬ WritesDuration runner word) := by
  unfold durationOf WritesDuration
  cases runner.py.durationMsOrNone word with
  | ok ms =>
    cases ms with
    | some ms => exact (judged_ok ms).congr Iff.rfl (by simp)
    | none => exact (judged_raise rfl).congr Iff.rfl (by simp)
  | error fault =>
    cases fault with
    | overflow message => exact (judged_raise rfl).congr Iff.rfl (by simp)
    | condition message | value message => exact (judged_raise rfl).congr Iff.rfl (by simp)

theorem nodeFor_cases (runner : Runner) (kind : String) (candidates : List Named) (name : String) :
    (∃ node, nodeFor runner kind candidates name = .ok node ∧ Resolves runner candidates name) ∨
      (∃ message, nodeFor runner kind candidates name = refuse message) ∧
        ¬ Resolves runner candidates name := by
  unfold nodeFor Resolves
  cases resolveNode runner candidates name with
  | error message => exact .inr ⟨⟨_, rfl⟩, by simp⟩
  | ok found =>
    cases found with
    | none => exact .inr ⟨⟨_, rfl⟩, by simp⟩
    | some node => exact .inl ⟨node, rfl, node, rfl⟩

/-! ### Readers -/

theorem judged_steps :
    Judged (expectStepCount runner obs tokens) False
      (¬ ReadsInt runner (tokens.getLast?.getD "")) := by
  unfold expectStepCount
  exact (judged_intOf _).map _

theorem judged_attempts :
    Judged (expectAttempts runner obs tokens) False
      (¬ ReadsInt runner (tokens.getLast?.getD "")) := by
  unfold expectAttempts
  exact (judged_intOf _).map _

theorem judged_slo :
    Judged (expectSlo runner obs phrase (Front.tokens phrase))
      (Expectation.slo.Refused runner compiled obs phrase) False := by
  unfold expectSlo Expectation.Refused
  dsimp only
  generalize Front.tokens phrase = tokens
  match tokens with
  | [] => exact judged_refuse _
  | [_] => exact judged_refuse _
  | [_, word] =>
    by_cases hword : word = "met"
    · subst hword
      exact (judged_ok _).congr (by simp) Iff.rfl
    · have hnot : word ≠ "met" ↔ True := by simp [hword]
      split
      · next h =>
        cases h
        exact absurd rfl hword
      · exact (judged_refuse _).congr hnot Iff.rfl
  | _ :: _ :: _ :: _ =>
    split
    · next h => cases h
    · exact judged_refuse _

/-- A duration is compared by an order comparator, or not at all. -/
theorem judged_durationCheck {op : Front.Comparator} {limit : String} :
    Judged (do
        let limit ← durationOf runner limit
        let got := obs.durationMs
        let detail := "duration=" ++ toString got ++ "ms limit=" ++ toString limit ++ "ms"
        match op with
        | .lt => return (decide (got < limit), detail)
        | .le => return (decide (got ≤ limit), detail)
        | .gt => return (decide (limit < got), detail)
        | .ge => return (decide (limit ≤ got), detail)
        | op => .error (.fault (.key op.word)) : Except Raised Check)
      False (op.word ∈ ["==", "!="] ∨ ¬ WritesDuration runner limit) := by
  cases op with
  | lt | le | gt | ge =>
    refine ((judged_durationOf limit).bind fun ms => judged_ok _).congr (by tauto) ?_
    simp [Front.Comparator.word]
  | eq | ne =>
    refine ((judged_durationOf limit).bind fun ms => judged_raise rfl).congr (by tauto) ?_
    simp [Front.Comparator.word]

theorem judged_duration :
    Judged (expectDuration runner obs phrase (Front.tokens phrase))
      (Expectation.duration.Refused runner compiled obs phrase)
      (Expectation.duration.Misread runner compiled obs phrase) := by
  unfold expectDuration Expectation.Refused Expectation.Misread
  dsimp only
  generalize Front.tokens phrase = tokens
  match tokens with
  | [] => exact judged_refuse _
  | [_] => exact judged_refuse _
  | [_, _] => exact judged_refuse _
  | [_, op, limit] =>
    dsimp only
    cases hop : Front.Comparator.ofWord? op with
    | none => exact (judged_refuse _).congr (by simp) (by simp)
    | some comparator =>
      have hword : comparator.word = op := by simpa using List.find?_some hop
      subst hword
      exact judged_durationCheck.congr (by simp) (by simp)
  | _ :: _ :: _ :: _ :: _ => exact judged_refuse _

theorem judged_cache :
    Judged (expectCache runner obs phrase (Front.tokens phrase))
      (Expectation.cache.Refused runner compiled obs phrase) False := by
  unfold expectCache Expectation.Refused
  dsimp only
  generalize Front.tokens phrase = tokens
  split
  · exact (judged_ok _).congr (by simp) Iff.rfl
  · exact (judged_ok _).congr (by simp) Iff.rfl
  · exact (judged_ok _).congr (by simp) Iff.rfl
  · next hwritten hhit hmiss =>
    apply (judged_refuse _).congr _ Iff.rfl
    split
    · next head word =>
      have hw : word ≠ "written" := fun h => hwritten head (by rw [h])
      have hh : word ≠ "hit" := fun h => hhit head (by rw [h])
      have hm : word ≠ "miss" := fun h => hmiss head (by rw [h])
      simp [hw, hh, hm]
    · exact Iff.rfl

theorem judged_result :
    Judged (expectResult runner compiled obs phrase)
      (Expectation.result.Refused runner compiled obs phrase)
      (Expectation.result.Misread runner compiled obs phrase) := by
  unfold expectResult Expectation.Refused Expectation.Misread
  dsimp only
  by_cases htext : restOf phrase = ""
  · rw [if_pos htext]
    exact (judged_refuse _).congr (by simp [htext]) (by simp [htext])
  · rw [if_neg htext]
    cases resultHolds runner compiled.doc obs.seen (restOf phrase) with
    | ok b => exact (judged_ok _).congr (by simp [htext]) (by simp)
    | error e =>
      cases e with
      | run e => exact (judged_refuse _).congr (by simp) (by simp [Exc.isRunError])
      | driver cls message =>
        exact (judged_raise rfl).congr (by simp [htext]) (by simp [htext, Exc.isRunError])
      | other cls =>
        exact (judged_raise rfl).congr (by simp [htext]) (by simp [htext, Exc.isRunError])

/-- A count behind a test for digits. -/
theorem judged_count {count : String} (f : Int → Check) :
    Judged (do return f (← intOf runner count) : Except Raised Check) False
      (¬ ReadsInt runner count) :=
  (judged_intOf count).map f

theorem judged_rows :
    Judged (expectRows runner compiled obs phrase (Front.tokens phrase))
      (Expectation.rows.Refused runner compiled obs phrase)
      (Expectation.rows.Misread runner compiled obs phrase) := by
  unfold expectRows Expectation.Refused Expectation.Misread
  dsimp only
  generalize Front.tokens phrase = tokens
  match tokens with
  | [] => exact judged_refuse _
  | [_] => exact judged_refuse _
  | [_, _] => exact judged_refuse _
  | [_, entity, count] =>
    dsimp only
    by_cases hdigits : runner.py.isdigit count = true
    · rw [if_pos hdigits]
      rcases nodeFor_cases runner "entity" compiled.entities entity with
        ⟨node, hnode, hresolves⟩ | ⟨⟨message, hnode⟩, hresolves⟩
      · rw [hnode]
        exact (judged_count _).congr (by simp [hdigits, hresolves]) (by simp [hdigits, hresolves])
      · rw [hnode]
        exact (judged_refuse message).congr (by simp [hresolves]) (by simp [hresolves])
    · rw [if_neg hdigits]
      exact (judged_refuse _).congr (by simp [hdigits]) (by simp [hdigits])
  | _ :: _ :: _ :: _ :: _ => exact judged_refuse _

theorem judged_emitted :
    Judged (expectEmitted runner compiled obs phrase (Front.tokens phrase))
      (Expectation.emitted.Refused runner compiled obs phrase)
      (Expectation.emitted.Misread runner compiled obs phrase) := by
  unfold expectEmitted Expectation.Refused Expectation.Misread
  dsimp only
  generalize Front.tokens phrase = tokens
  match tokens with
  | [] => exact judged_refuse _
  | [_] => exact judged_refuse _
  | head :: event :: rest =>
    dsimp only
    rcases nodeFor_cases runner "event" compiled.events event with
      ⟨node, hnode, hresolves⟩ | ⟨⟨message, hnode⟩, hresolves⟩
    · rw [hnode]
      dsimp only [Bind.bind, Except.bind]
      split
      · exact (judged_ok _).congr (by simp [hresolves, IsEmittedCheck]) (by simp)
      · next count =>
        by_cases hdigits : runner.py.isdigit count = true
        · rw [if_pos hdigits]
          exact (judged_count _).congr (by simp [hresolves, IsEmittedCheck, hdigits])
            (by simp [hresolves, hdigits])
        · rw [if_neg hdigits]
          exact (judged_refuse _).congr (by simp [IsEmittedCheck, hdigits]) (by simp [hdigits])
      · exact (judged_ok _).congr (by simp [hresolves, IsEmittedCheck]) (by simp)
      · exact (judged_ok _).congr (by simp [hresolves, IsEmittedCheck]) (by simp)
      · next hnil hcount hexists hmissing =>
        apply (judged_refuse _).congr
        · have hcheck : ¬ IsEmittedCheck runner rest := by
            rintro (h | ⟨count, h, -⟩ | ⟨field, word, h, hword⟩)
            · exact hnil h
            · exact hcount count h
            · simp only [List.mem_cons, List.not_mem_nil, or_false] at hword
              rcases hword with rfl | rfl
              · exact hexists field h
              · exact hmissing field h
          simp [hcheck]
        · split
          · next word count h =>
            cases h
            have hw : word ≠ "count" := fun h => hcount count (by rw [h])
            simp [hw]
          · exact Iff.rfl
    · rw [hnode]
      refine (judged_refuse message).congr (by simp [hresolves]) ?_
      split
      · next h =>
        cases h
        simp [hresolves]
      · exact Iff.rfl

theorem judged_error :
    Judged (expectError runner obs phrase (Front.tokens phrase))
      (Expectation.error.Refused runner compiled obs phrase) False := by
  unfold expectError Expectation.Refused
  dsimp only
  generalize Front.tokens phrase = tokens
  split
  · exact (judged_ok _).congr (by simp) Iff.rfl
  · exact (judged_ok _).congr (by simp) Iff.rfl
  · next hstep hreason =>
    apply (judged_refuse _).congr _ Iff.rfl
    split
    · next head kind word rest =>
      have hs : kind ≠ "step" := fun h => hstep head word rest (by rw [h])
      have hr : kind ≠ "reason" := fun h => hreason head word rest (by rw [h])
      simp [hs, hr]
    · exact Iff.rfl

theorem judged_effects :
    Judged (expectEffects runner obs phrase (Front.tokens phrase))
      (Expectation.effects.Refused runner compiled obs phrase)
      (Expectation.effects.Misread runner compiled obs phrase) := by
  unfold expectEffects Expectation.Refused Expectation.Misread
  dsimp only
  generalize Front.tokens phrase = tokens
  split
  · exact (judged_ok _).congr (by simp) (by simp)
  · next head count hcomplete =>
    have hne : count ≠ "complete" := hcomplete
    by_cases hdigits : runner.py.isdigit count = true
    · rw [if_pos hdigits]
      exact (judged_count _).congr (by simp [hdigits]) (by simp [hne, hdigits])
    · rw [if_neg hdigits]
      exact (judged_refuse _).congr (by simp [hne, hdigits]) (by simp [hdigits])
  · next hcomplete hcount =>
    apply (judged_refuse _).congr
    · split
      · next head count => exact absurd rfl (hcount head count)
      · exact Iff.rfl
    · split
      · next head count => exact absurd rfl (hcount head count)
      · exact Iff.rfl

/-! ### Lines -/

/-- Every reader refuses and misreads what it is said to. -/
theorem judged_check (kind : Expectation) :
    Judged (kind.check runner compiled obs phrase) (kind.Refused runner compiled obs phrase)
      (kind.Misread runner compiled obs phrase) := by
  cases kind with
  | completed => exact judged_ok (expectCompleted obs)
  | failed => exact judged_ok (expectFailed obs)
  | steps => exact judged_steps
  | attempts => exact judged_attempts
  | slo => exact judged_slo
  | duration => exact judged_duration
  | cache => exact judged_cache
  | result => exact @judged_result runner compiled obs phrase
  | rows => exact judged_rows
  | emitted => exact judged_emitted
  | error => exact judged_error
  | effects => exact judged_effects

/-- A line is refused and misread as the reader of its first word is. -/
theorem judged_judge :
    Judged (judge runner compiled obs phrase) (Refused runner compiled obs phrase)
      (Misread runner compiled obs phrase) := by
  unfold judge Refused Misread expectationOf
  cases Front.tokens phrase with
  | nil => exact (judged_raise rfl).congr (by simp) (by simp)
  | cons key rest =>
    dsimp only [List.head?_cons, Option.bind_some]
    cases Expectation.ofWord? key with
    | none =>
      apply (judged_ok _).congr
      · simp
      · simp
    | some kind => exact ((judged_check kind).map _).congr (by simp) (by simp)

theorem judged_runExpectation (c : Case) (acc : Report × Bool) :
    Judged (runExpectation runner compiled c obs acc phrase) (Refused runner compiled obs phrase)
      (Misread runner compiled obs phrase) := by
  have hjudge := @judged_judge runner compiled obs phrase
  exact hjudge.map (enter c acc)

/-- What is not misread is refused exactly if it raises. -/
theorem Judged.refused_iff (h : Judged x refused misread) (hgood : ¬ misread) :
    refused ↔ ∃ e, x = .error e := by
  constructor
  · intro hr
    obtain ⟨e, he, -⟩ := h.refused.1 hr
    exact ⟨e, he⟩
  · rintro ⟨e, he⟩
    apply h.refused.2
    refine ⟨e, he, ?_⟩
    by_contra hspec
    rw [Bool.not_eq_true] at hspec
    exact hgood (h.misread.2 ⟨e, he, hspec⟩)

end Lnpl.Spec
