import RuleMachine.Proofs.ActionLists

/-!
# The forms of a rule

A rule is defined by a record, in short by a sequence, or by its predicate alone.

A record has to meet some conditions. They are checked in order, and the first that is not met is
reported. If all are met, the record says what each part of the rule is.

A sequence stands for the record of its first item and the list of the others, and a predicate for
the record of itself: both come to the same, with the same failures. There is one exception. A
record refuses a predicate that is a sequence or a map, and a sequence takes it as a constant.

* `RecordCondition`: the conditions on a record.
* `Streams.ruleProblems_record`: what is wrong with a record, condition by condition.
* `Config.rule_record`: what a record comes to.
* `rule_shorthand`: what the short forms come to.
-/

namespace RuleMachine

-- ---------------------------------------------------------------------------
-- Conditions on records
-- ---------------------------------------------------------------------------

/-- The keys that the record of a rule may have. -/
def ruleKeys : List Value := recordKeys.map .text

/-- The stray keys of a record are those that it may not have. -/
theorem Entries.mem_strayKeys {record : Entries} {key : Value} :
    key ∈ record.strayKeys recordKeys ↔ key ∈ record.keys ∧ key ∉ ruleKeys := by
  rw [strayKeys, List.mem_filter, ruleKeys]
  cases key <;> simp [Value.text?]

/-- The conditions on the record of a rule. -/
inductive RecordCondition where
  | knownKeys
  | hasPredicate
  | oneActionKey
  | simplePredicate
  | textLabel
  | actionList
deriving DecidableEq, Repr

namespace RecordCondition

/-- The conditions, in the order in which they are checked. -/
def inOrder : List RecordCondition :=
  [knownKeys, hasPredicate, oneActionKey, simplePredicate, textLabel, actionList]

/-- Whether a record meets a condition. A label or an action list that is null is as good as none;
a predicate that is null is a predicate. -/
def Holds (s : Streams) (record : Entries) : RecordCondition → Prop
  | knownKeys => ∀ key ∈ record.keys, key ∈ ruleKeys
  | hasPredicate => .text "rule" ∈ record.keys
  | oneActionKey => ¬ (.text "action" ∈ record.keys ∧ .text "actions" ∈ record.keys)
  | simplePredicate => ((Value.map record).field "rule").composite = false
  | textLabel =>
    (Value.map record).field "message" = .null ∨
      ∃ label, (Value.map record).field "message" = .text label
  | actionList => ∃ fs, s.ListsActions (Value.map record).actionList fs

/-- What is reported of a record that does not meet a condition. -/
inductive Complaint (s : Streams) (record : Entries) : RecordCondition → RuleProblem → Prop
  | knownKeys :
    Complaint s record .knownKeys (.unknownKeys (record.strayKeys recordKeys))
  | hasPredicate : Complaint s record .hasPredicate .noPredicate
  | oneActionKey : Complaint s record .oneActionKey .bothActionKeys
  | simplePredicate :
    Complaint s record .simplePredicate
      (.compositePredicate ((Value.map record).field "rule").typeName)
  | textLabel : Complaint s record .textLabel .labelNotText
  | actionList {problem : ActionProblem}
    (h : ((readActions (Value.map record).actionList).result s).1 = .error problem) :
    Complaint s record .actionList (.actions problem)

/-- What is wrong with a record by one of the conditions. -/
def problems (s : Streams) (record : Entries) : RecordCondition → List RuleProblem
  | knownKeys =>
    let unknown := record.strayKeys recordKeys
    violationIf (!unknown.isEmpty) (.unknownKeys unknown)
  | hasPredicate => violationIf (!record.contains (.text "rule")) .noPredicate
  | oneActionKey =>
    violationIf (record.contains (.text "action") && record.contains (.text "actions"))
      .bothActionKeys
  | simplePredicate =>
    let predicate := (Value.map record).field "rule"
    violationIf predicate.composite (.compositePredicate predicate.typeName)
  | textLabel => violationIf (!((Value.map record).field "message").labels) .labelNotText
  | actionList => (s.actionProblems (Value.map record).actionList).map .actions

variable {s : Streams} {record : Entries} {c : RecordCondition}

theorem violationIf_eq_nil {ε : Type} {p : Bool} {violation : ε} :
    violationIf p violation = [] ↔ p = false := by
  cases p <;> simp [violationIf]

/-- Nothing is wrong with a record by a condition exactly if the condition is met. -/
theorem problems_eq_nil : c.problems s record = [] ↔ c.Holds s record := by
  -- each condition is checked by a computation of its own
  cases c with
  | knownKeys =>
    rw [problems, violationIf_eq_nil, Bool.not_eq_false', List.isEmpty_iff,
      List.eq_nil_iff_forall_not_mem, Holds]
    simp only [Entries.mem_strayKeys, not_and, Classical.not_not]
  | hasPredicate =>
    rw [problems, violationIf_eq_nil, Bool.not_eq_false', Entries.contains_text_iff]
    rfl
  | oneActionKey =>
    rw [problems, violationIf_eq_nil, ← Bool.not_eq_true, Bool.and_eq_true,
      Entries.contains_text_iff, Entries.contains_text_iff]
    rfl
  | simplePredicate =>
    rw [problems, violationIf_eq_nil]
    rfl
  | textLabel =>
    rw [problems, violationIf_eq_nil, Bool.not_eq_false', Holds]
    cases (Value.map record).field "message" <;> simp [Value.labels]
  | actionList =>
    rw [problems, List.map_eq_nil_iff, Streams.actionProblems_eq_nil]
    rfl

/-- What is wrong by a condition is what is reported. -/
theorem complaint {first : RuleProblem} {rest : List RuleProblem}
    (h : c.problems s record = first :: rest) : Complaint s record c first := by
  -- five conditions have one complaint each; the sixth has those of the action list
  have hOnly {p : Bool} {violation : RuleProblem} (h : violationIf p violation = first :: rest) :
      first = violation := by
    cases p with
    | false => cases h
    | true => exact (List.cons.inj h).1.symm
  cases c with
  | actionList =>
    obtain ⟨problem, others, hProblems, rfl, -⟩ := List.map_eq_cons_iff.mp h
    have hOutcome := (readActions_reports (s := s) (Value.map record).actionList).outcome
    rw [hProblems] at hOutcome
    exact .actionList hOutcome
  | knownKeys | hasPredicate | oneActionKey | simplePredicate | textLabel =>
    rw [hOnly h]
    constructor

end RecordCondition

/-- What is wrong with a record is what is wrong by each of the conditions, in order. -/
theorem Streams.ruleProblems_record (s : Streams) (record : Entries) :
    s.ruleProblems (.map record) =
      RecordCondition.inOrder.flatMap (RecordCondition.problems s record) := by
  simp [ruleProblems, recordProblems, RecordCondition.inOrder, RecordCondition.problems,
    List.append_assoc]

theorem RecordCondition.mem_inOrder (c : RecordCondition) : c ∈ inOrder := by
  cases c <;> decide

/-- Nothing is wrong with a record exactly if it meets all conditions. -/
theorem Streams.ruleProblems_record_eq_nil {s : Streams} {record : Entries} :
    s.ruleProblems (.map record) = [] ↔ ∀ c : RecordCondition, c.Holds s record := by
  rw [ruleProblems_record, List.flatMap_eq_nil_iff]
  constructor
  · intro h c
    exact RecordCondition.problems_eq_nil.mp (h c c.mem_inOrder)
  · intro h c _
    exact RecordCondition.problems_eq_nil.mpr (h c)

/-- If a record does not meet a condition, but those before it, what is wrong by that condition
comes first. -/
theorem Streams.ruleProblems_record_eq_cons {s : Streams} {record : Entries} {c : RecordCondition}
    {earlier later : List RecordCondition}
    (hOrder : RecordCondition.inOrder = earlier ++ c :: later)
    (hEarlier : ∀ c' ∈ earlier, c'.Holds s record) (hFails : ¬ c.Holds s record) :
    ∃ first rest, s.ruleProblems (.map record) = first :: rest ∧
      RecordCondition.Complaint s record c first := by
  have hNone : earlier.flatMap (RecordCondition.problems s record) = [] :=
    List.flatMap_eq_nil_iff.mpr fun c' hc' => RecordCondition.problems_eq_nil.mpr (hEarlier c' hc')
  -- the conditions before are met, so this one is the first to complain
  cases hProblems : c.problems s record with
  | nil => exact absurd (RecordCondition.problems_eq_nil.mp hProblems) hFails
  | cons first rest =>
    refine ⟨first, rest ++ later.flatMap (RecordCondition.problems s record), ?_,
      RecordCondition.complaint hProblems⟩
    rw [ruleProblems_record, hOrder, List.flatMap_append, hNone, List.nil_append,
      List.flatMap_cons, hProblems]
    rfl

-- ---------------------------------------------------------------------------
-- What is said of a record
-- ---------------------------------------------------------------------------

theorem sortTexts_perm (texts : List String) : (sortTexts texts).Perm texts :=
  List.mergeSort_perm texts _

/-- Sorted texts are in order. -/
theorem sortTexts_sorted (texts : List String) : (sortTexts texts).Pairwise (· ≤ ·) := by
  let le (s t : String) : Bool := !(t < s)
  have hLe (s t : String) : le s t = true ↔ s ≤ t := by
    show (!decide (t < s)) = true ↔ s ≤ t
    rw [Bool.not_eq_true', decide_eq_false_iff_not, String.not_lt]
  have hTrans (a b c : String) (hab : le a b = true) (hbc : le b c = true) : le a c = true := by
    rw [hLe] at hab hbc ⊢
    exact String.le_trans hab hbc
  have hTotal (a b : String) : (le a b || le b a) = true := by
    rw [Bool.or_eq_true, hLe, hLe]
    exact String.le_total a b
  have hSorted : (sortTexts texts).Pairwise fun s t => le s t = true :=
    List.pairwise_mergeSort hTrans hTotal texts
  exact hSorted.imp fun h => (hLe _ _).mp h

-- ---------------------------------------------------------------------------
-- Reading a record
-- ---------------------------------------------------------------------------

/-- Whether a rule is the one that a record describes. A predicate that is a function is the
predicate of the rule, and anything else is what the rule always answers. -/
structure Rule.OfRecord (s : Streams) (record : Entries) (target : StateRef) (rule : Rule) :
    Prop where
  kind : rule.kind = .labeled
  target : rule.target = target
  label : rule.label.elim .null .text = (Value.map record).field "message"
  actions : s.ListsActions (Value.map record).actionList rule.actions
  function : ∀ f, (Value.map record).field "rule" = .function f → rule.predicate = .function f
  constant : (∀ f, (Value.map record).field "rule" ≠ .function f) →
    ∀ args, Run.ask rule.predicate args = pure ((Value.map record).field "rule")

/-- **What the record of a rule comes to** when it is read in a world. -/
structure World.ReadsRecord (w : World) (source targetName : Value) (target : StateRef)
    (record : Entries) (r : Except Fault Rule) : Prop where
  /-- A record is accepted exactly if it meets all conditions. -/
  accepts : (∃ rule, r = .ok rule) ↔ ∀ c : RecordCondition, c.Holds w.streams record
  /-- Then the rule is the one that it describes. -/
  gives : ∀ rule, r = .ok rule → rule.OfRecord w.streams record target
  /-- Otherwise the first condition that it does not meet is reported. -/
  rejects : ∀ earlier c later, RecordCondition.inOrder = earlier ++ c :: later →
    (∀ c' ∈ earlier, c'.Holds w.streams record) → ¬ c.Holds w.streams record →
      ∃ problem, RecordCondition.Complaint w.streams record c problem ∧
        r = .error (w.fault (.rule source targetName problem))
  /-- Of unknown keys the texts are listed, all of them and no others, and sorted. -/
  lists : ∀ keys, RecordCondition.Complaint w.streams record .knownKeys (.unknownKeys keys) →
    (∀ key, key ∈ keys ↔ key ∈ record.keys ∧ key ∉ ruleKeys) ∧
      ∃ texts, texts.Perm (keys.map (Value.plain w.refText)) ∧ texts.Pairwise (· ≤ ·) ∧
        (w.fault (.rule source targetName (.unknownKeys keys))).message =
          rulePlace w.refText source targetName ++ " has unknown keys: " ++
            String.intercalate ", " texts
  /-- That something is wrong with an action list goes back to the failure that there is when the
  list is read by itself, which has the same message. -/
  goesBack : ∀ problem, RecordCondition.Complaint w.streams record .actionList (.actions problem) →
    ∃ origin, Cause.origin? w.refText (.rule source targetName (.actions problem)) = some origin ∧
      ((readActionsAt (.named (rulePlace w.refText source targetName))
        (Value.map record).actionList).result w.streams).1 = .error origin ∧
      (w.fault origin).message = (w.fault (.rule source targetName (.actions problem))).message

/-- The rule that is read of a record is the one that it describes, if all conditions are met. -/
theorem Streams.rule_ofRecord {s : Streams} {record : Entries}
    (hHolds : ∀ c : RecordCondition, c.Holds s record) (target : StateRef) :
    (s.rule target (.map record)).OfRecord s record target where
  kind := rfl
  target := rfl
  label := by
    show ((Value.map record).field "message").text?.elim Value.null Value.text = _
    rcases hHolds .textLabel with hLabel | ⟨label, hLabel⟩ <;> rw [hLabel] <;> rfl
  actions := by
    obtain ⟨fs, hList⟩ := hHolds .actionList
    have hActions : (s.rule target (.map record)).actions = fs := hList.functions_eq
    rwa [hActions]
  function f hFunction := by
    show Predicate.ofValue ((Value.map record).field "rule") = _
    rw [hFunction]
    rfl
  constant hConstant args := by
    show Run.ask (.ofValue ((Value.map record).field "rule")) args = _
    -- a constant is asked by giving it, whatever the arguments
    generalize (Value.map record).field "rule" = value at hConstant ⊢
    cases value with
    | function f => exact absurd rfl (hConstant f)
    | _ => rfl

/-- What a record comes to, its conditions say. -/
theorem World.readsRecord (w : World) (source targetName : Value) (target : StateRef)
    (record : Entries) :
    w.ReadsRecord source targetName target record
      (((readRule source targetName target (.map record)).result w.streams).1.mapError
        w.fault) := by
  have hReports := readRule_reports (s := w.streams) source targetName target (.map record)
  rw [hReports.outcome]
  exact
    { accepts := by
        rw [← Streams.ruleProblems_record_eq_nil]
        cases w.streams.ruleProblems (.map record) with
        | nil => exact iff_of_true ⟨_, rfl⟩ rfl
        | cons first rest => exact iff_of_false (fun ⟨_, h⟩ => by cases h) nofun
      gives := by
        intro rule hRule
        cases hProblems : w.streams.ruleProblems (.map record) with
        | nil =>
          rw [hProblems] at hRule
          cases hRule
          exact Streams.rule_ofRecord (Streams.ruleProblems_record_eq_nil.mp hProblems) target
        | cons first rest =>
          rw [hProblems] at hRule
          cases hRule
      rejects := by
        intro earlier c later hOrder hEarlier hFails
        obtain ⟨first, rest, hProblems, hComplaint⟩ :=
          Streams.ruleProblems_record_eq_cons hOrder hEarlier hFails
        rw [hProblems]
        exact ⟨first, hComplaint, rfl⟩
      -- the unknown keys are those in the record, sorted
      lists := by
        rintro keys ⟨⟩
        exact ⟨fun key => Entries.mem_strayKeys, _, sortTexts_perm _, sortTexts_sorted _,
          (String.append_assoc ..).symm⟩
      goesBack := by
        intro problem hComplaint
        cases hComplaint with
        | actionList hProblem =>
          refine ⟨_, rfl, ?_, rfl⟩
          show ((readActions _).result w.streams).1.mapError _ = _
          rw [hProblem]
          rfl }

namespace Config

/-- **The record of a rule** is read without calling any function, and comes to what its conditions
say. -/
theorem rule_record (handler : Handler) (w : World) (source targetName : Value)
    (target : StateRef) (record : Entries) :
    let reading := readRule source targetName target (.map record)
    ∃ ds r streams,
      (begin (Run.reading reading) w).Completes handler ds r { w with streams } ∧
        (∀ d ∈ ds, d.act = .perform (.read reading)) ∧
        w.ReadsRecord source targetName target record r := by
  intro reading
  let p : Primitive Rule := .read reading
  have hCompletes : (begin (Run.act p) w).Completes handler (p.deeds w)
      ((p.effect w).1.mapError w.fault) (p.effect w).2 := completes_act.mpr ⟨rfl, rfl, rfl⟩
  refine ⟨_, _, _, hCompletes, fun d hd => ?_, w.readsRecord source targetName target record⟩
  rw [Primitive.mem_deeds hd]

end Config

/-- Of the three things that are wrong with this record, the keys come first. -/
example :
    let record : Value := .map
      [(.text "message", .int 5), (.text "then", .null), (.text "rule", .list []), (.int 1, .null)]
    ((readRule (.text "a") (.text "b") default record).result default).1 =
      .error (.rule (.text "a") (.text "b") (.unknownKeys [.text "then", .int 1])) := rfl

-- ---------------------------------------------------------------------------
-- Short forms
-- ---------------------------------------------------------------------------

/-- Whether reading one definition of a rule is as good as reading the record that it is short for:
with the same failures, and with rules that differ in nothing but the form that they were defined
in. Neither has a label. -/
def Reading.ShortFor (short long : Reading Cause Rule) : Prop :=
  ∀ s, long.result s =
      ((short.result s).1.map fun rule => { rule with kind := .labeled }, (short.result s).2) ∧
    ∀ rule, (short.result s).1 = .ok rule → rule.label = none

/-- The record of a predicate and a list of actions. -/
def longForm (p : Value) (actions : List Value) : Value :=
  .record [("rule", p), ("actions", .list actions)]

/-- It makes no difference to the actions of a rule in which form the rest of it was defined. -/
theorem shortFor_of_actions (f : RuleProblem → Cause) (v : Value)
    (rule : List FunctionName → Rule) (hLabel : ∀ actions, (rule actions).label = none) :
    Reading.ShortFor
      (Reading.mapProblem f do
        let actions ← (readActions v).mapProblem .actions
        return rule actions)
      (Reading.mapProblem f do
        let actions ← (readActions v).mapProblem .actions
        return { rule actions with kind := .labeled }) := by
  intro s
  simp only [Reading.result_mapProblem, Reading.result_bind_pure]
  rcases (readActions v).result s with ⟨problem | actions, t⟩
  · exact ⟨rfl, nofun⟩
  · refine ⟨rfl, fun _ h => ?_⟩
    cases h
    exact hLabel actions

section

variable (source targetName : Value) (target : StateRef) {p : Value}

/-- A sequence is short for the record of its first item and the list of the others. -/
theorem readRule_sequence (hp : p.composite = false) {actions : List Value} {spec : Value}
    (hSpec : spec ∈ [Value.list (p :: actions), .tuple (p :: actions)]) :
    (readRule source targetName target spec).ShortFor
      (readRule source targetName target (longForm p actions)) := by
  have hShort : readRuleTo target spec = (do
      let actions ← (readActions (.list actions)).mapProblem .actions
      return { target, predicate := .ofValue p, label := none, actions
               kind := (Predicate.ofValue p).kind }) := by
    rcases List.mem_pair.mp hSpec with rfl | rfl <;> rfl
  -- written out, the record has the predicate and the actions and no label
  have hLong : readRuleTo target (longForm p actions) = (do
      let actions ← (readActions (.list actions)).mapProblem .actions
      return { target, predicate := .ofValue p, label := none, actions, kind := .labeled }) := by
    cases p with
    | list _ | tuple _ | map _ => cases hp
    | _ => rfl
  rw [readRule, readRule, hShort, hLong]
  exact shortFor_of_actions _ _ _ fun _ => rfl

/-- A predicate is short for the record of itself. -/
theorem readRule_predicate (hp : p.composite = false) :
    (readRule source targetName target p).ShortFor
      (readRule source targetName target (.record [("rule", p)])) := by
  have hShort : readRuleTo target p = (do
      let actions ← (readActions .null).mapProblem .actions
      return { target, predicate := .ofValue p, label := none, actions
               kind := (Predicate.ofValue p).kind }) := by
    cases p with
    | list _ | tuple _ | map _ => cases hp
    | _ => rfl
  -- a record without actions reads as one with none
  have hLong : readRuleTo target (.record [("rule", p)]) = (do
      let actions ← (readActions .null).mapProblem .actions
      return { target, predicate := .ofValue p, label := none, actions, kind := .labeled }) := by
    cases p with
    | list _ | tuple _ | map _ => cases hp
    | _ => rfl
  rw [readRule, readRule, hShort, hLong]
  exact shortFor_of_actions _ _ _ fun _ => rfl

/-- A sequence takes a first item that is itself a sequence or a map for a constant. -/
theorem readRule_composite (hp : p.composite = true) {actions : List Value} {spec : Value}
    (hSpec : spec ∈ [Value.list (p :: actions), .tuple (p :: actions)]) (s : Streams)
    (rule : Rule) :
    ((readRule source targetName target spec).result s).1 = .ok rule ↔
      ∃ fs : List FunctionName, actions = fs.map .function ∧
        rule = { target, predicate := .constant p, label := none, actions := fs
                 kind := .constant } := by
  have hConstant : Predicate.ofValue p = .constant p := by
    cases p with
    | list _ | tuple _ | map _ => rfl
    | _ => cases hp
  have hReports := readRule_reports (s := s) source targetName target spec
  have hProblems : s.ruleProblems spec =
      (misfits Value.function? .notFunction actions).map .actions := by
    rcases List.mem_pair.mp hSpec with rfl | rfl <;> rfl
  have hRule : s.rule target spec =
      { target, predicate := .constant p, label := none
        actions := actions.filterMap Value.function?, kind := .constant } := by
    rcases List.mem_pair.mp hSpec with rfl | rfl <;> simp only [Streams.rule, hConstant] <;> rfl
  rw [hReports.outcome, hProblems, hRule]
  -- what is left is whether the other items are functions
  constructor
  · intro h
    cases hMisfits : misfits Value.function? ActionProblem.notFunction actions with
    | nil =>
      obtain ⟨fs, rfl⟩ := misfits_function_eq_nil.mp hMisfits
      rw [hMisfits, filterMap_function?] at h
      exact ⟨fs, rfl, (Except.ok.inj h).symm⟩
    | cons first rest =>
      rw [hMisfits] at h
      cases h
  · rintro ⟨fs, rfl, rfl⟩
    rw [misfits_function_eq_nil.mpr ⟨fs, rfl⟩, filterMap_function?]
    rfl

/-- **What the short forms of a rule come to.** A sequence, and a predicate by itself, come to the
same as the records that they are short for. Only if the predicate is itself a sequence or a map,
the record refuses it, while the sequence takes it for a constant. -/
theorem rule_shorthand (p : Value) :
    (p.composite = false →
      (∀ actions, ∀ spec ∈ [Value.list (p :: actions), .tuple (p :: actions)],
        (readRule source targetName target spec).ShortFor
          (readRule source targetName target (longForm p actions))) ∧
      (readRule source targetName target p).ShortFor
        (readRule source targetName target (.record [("rule", p)]))) ∧
    (p.composite = true → ∀ actions s,
      ((readRule source targetName target (longForm p actions)).result s).1 =
        .error (.rule source targetName (.compositePredicate p.typeName)) ∧
      ∀ spec ∈ [Value.list (p :: actions), .tuple (p :: actions)], ∀ rule,
        ((readRule source targetName target spec).result s).1 = .ok rule ↔
          ∃ fs : List FunctionName, actions = fs.map .function ∧
            rule = { target, predicate := .constant p, label := none, actions := fs
                     kind := .constant }) := by
  constructor
  · intro hp
    exact ⟨fun _ _ hSpec => readRule_sequence _ _ _ hp hSpec, readRule_predicate _ _ _ hp⟩
  · -- a composite predicate is refused by the record and taken by the sequence
    intro hp actions s
    refine ⟨?_, fun _ hSpec => readRule_composite _ _ _ hp hSpec s⟩
    cases p with
    | list _ | tuple _ | map _ => rfl
    | _ => cases hp

end

/-- A bell that rings at noon: the sequence of a sign and what is done is short for a record. -/
theorem rule_shorthand_bell :
    (Value.function "noon").composite = false ∧
      (readRule (.text "quiet") (.text "ringing") { machine := 0, index := 1 }
        (.list [.function "noon", .function "pull"])).ShortFor
          (readRule (.text "quiet") (.text "ringing") { machine := 0, index := 1 }
            (longForm (.function "noon") [.function "pull"])) := by
  refine ⟨rfl, ?_⟩
  have hForms := rule_shorthand (.text "quiet") (.text "ringing") { machine := 0, index := 1 }
    (.function "noon")
  exact (hForms.1 rfl).1 [.function "pull"] _ List.mem_cons_self

/-- A sequence is accepted with a sequence in it, and the record is not that it is short for. -/
theorem not_every_sequence_is_short_for_its_record :
    ¬ ∀ (source targetName : Value) (target : StateRef) (p : Value) (actions : List Value)
        (s : Streams),
      (∃ rule, ((readRule source targetName target (.list (p :: actions))).result s).1 = .ok rule) ↔
        ∃ rule, ((readRule source targetName target (longForm p actions)).result s).1 =
          .ok rule := by
  intro h
  obtain ⟨rule, hRule⟩ := (h (.text "a") (.text "b") { machine := 0, index := 1 }
    (.list [.bool true]) [] { left := [] }).mp ⟨_, rfl⟩
  cases hRule

end RuleMachine
