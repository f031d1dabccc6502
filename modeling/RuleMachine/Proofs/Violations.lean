import RuleMachine.Proofs.Tables

/-!
# What is wrong with a table

A table is read in passes, and reading stops at the first thing that is wrong. Here everything that
is wrong with a table is listed, without reading it: `Streams.violations` looks at each part of the
table by itself, with all streams as they are at the beginning, and puts the violations one after
the other, first those of the table as a whole, then those of the entries, then those of the rules.
`Streams.machine` is the machine that a table describes if nothing is wrong with it.
-/

namespace RuleMachine

-- ---------------------------------------------------------------------------
-- Violations in order
-- ---------------------------------------------------------------------------

/-- The list of a violation if there is one. -/
def violationIf {ε : Type} (p : Bool) (violation : ε) : List ε := if p then [violation] else []

theorem mem_violationIf {ε : Type} {p : Bool} {violation other : ε} :
    other ∈ violationIf p violation ↔ p = true ∧ other = violation := by
  unfold violationIf
  split <;> simp_all

/-- The violations by the items that are not of some kind. -/
def misfits {ε β : Type} (kind : Value → Option β) (problem : Nat → Value → ε)
    (items : List Value) : List ε :=
  items.zipIdx.flatMap fun (v, i) => violationIf (kind v).isNone (problem i v)

/-- If every item is of the kind, none misfits. -/
theorem misfits_eq_nil {ε β : Type} {kind : Value → Option β} {problem : Nat → Value → ε}
    {items : List Value} (h : ∀ v ∈ items, (kind v).isNone = false) :
    misfits kind problem items = [] := by
  refine List.flatMap_eq_nil_iff.mpr fun ⟨v, i⟩ hItem => ?_
  have hMem : v ∈ items := List.mem_of_getElem? (List.mem_zipIdx_iff_getElem?.mp hItem)
  simp [violationIf, h v hMem]

-- ---------------------------------------------------------------------------
-- What is read
-- ---------------------------------------------------------------------------

namespace Value

/-- The streams that are used up when the items of a value are read. -/
def sources : Value → List Nat
  | stream id => [id]
  | _ => []

/-- The entries of a map. -/
def entries : Value → Entries
  | map entries => entries
  | _ => []

/-- The value under a key of a record; null if the key is missing, or if there is no record. -/
def field (v : Value) (key : String) : Value := (v.entries.get? (.text key)).getD .null

/-- Whether a value is a sequence or a map, which a predicate in a record must not be. -/
def composite : Value → Bool
  | list _ | tuple _ | map _ => true
  | _ => false

/-- Whether a value may stand for a label. -/
def labels : Value → Bool
  | null | text _ => true
  | _ => false

/-- The action list in the record of a rule, which has two keys for it. -/
def actionList (v : Value) : Value :=
  match v with
  | map record => ((Entries.get? record (.text "action")).or
      (Entries.get? record (.text "actions"))).getD .null
  | list (_ :: rest) | tuple (_ :: rest) => list rest
  | _ => null

end Value

/-- The keys that the definition of a state may have. -/
def definitionKeys : List String := ["on_enter", "do", "on_exit", "rules"]

/-- The keys that the record of a rule may have. -/
def recordKeys : List String := ["rule", "message", "action", "actions"]

/-- The keys that are none of the known ones, in the order in which they stand in a map. -/
def Entries.strayKeys (known : List String) (entries : Entries) : List Value :=
  entries.keys.filter fun key => !key.text?.any known.contains

namespace Streams

/-- The items of some kind that a value yields. -/
def itemsOf {β : Type} (s : Streams) (kind : Value → Option β) (v : Value) : List β :=
  ((s.items? v).getD []).filterMap kind

/-- What is wrong with a value that must yield items of some kind. -/
def itemViolations {ε β : Type} (s : Streams) (kind : Value → Option β) (notItems : ε)
    (problem : Nat → Value → ε) (v : Value) : List ε :=
  match s.items? v with
  | none => [notItems]
  | some items => misfits kind problem items

/-- The pairs that a value yields, or the entries of a map. -/
def pairs (s : Streams) (v : Value) : List (Value × Value) :=
  match v with
  | .map entries => entries
  | v => s.itemsOf Value.pair? v

/-- What is wrong with a value that must be a map or yield pairs. -/
def pairViolations {ε : Type} (s : Streams) (notPairs : ε) (notPair : Nat → Value → ε) (v : Value) :
    List ε :=
  match v with
  | .map _ => []
  | v => s.itemViolations Value.pair? notPairs notPair v

-- ---------------------------------------------------------------------------
-- Action lists
-- ---------------------------------------------------------------------------

/-- The functions that a value lists as actions, where it lists some. -/
def functions (s : Streams) (v : Value) : List FunctionName :=
  match v with
  | .null => []
  | .function name => [name]
  | v => s.itemsOf Value.function? v

/-- Whether a value is an action list, and of which functions: of none, of a single one, or of
those that it yields, in order. -/
inductive ListsActions (s : Streams) : Value → List FunctionName → Prop
  | none : ListsActions s .null []
  | single (f : FunctionName) : ListsActions s (.function f) [f]
  | items {v : Value} {fs : List FunctionName} (h : s.items? v = some (fs.map .function)) :
    ListsActions s v fs

/-- What is wrong with a value as an action list, in the order of the items. -/
def actionProblems (s : Streams) (v : Value) : List ActionProblem :=
  match v with
  | .null | .function _ => []
  | v => s.itemViolations Value.function? (.notActions v.typeName) .notFunction v

end Streams

-- ---------------------------------------------------------------------------
-- Rules
-- ---------------------------------------------------------------------------

/-- What is wrong with the record of a rule, apart from its actions. -/
def recordProblems (record : Entries) : List RuleProblem :=
  let unknown := record.strayKeys recordKeys
  let predicate := (Value.map record).field "rule"
  violationIf (!unknown.isEmpty) (.unknownKeys unknown) ++
    violationIf (!record.contains (.text "rule")) .noPredicate ++
    violationIf (record.contains (.text "action") && record.contains (.text "actions"))
      .bothActionKeys ++
    violationIf predicate.composite (.compositePredicate predicate.typeName) ++
    violationIf (!((Value.map record).field "message").labels) .labelNotText

namespace Streams

/-- What is wrong with the definition of a rule. -/
def ruleProblems (s : Streams) (spec : Value) : List RuleProblem :=
  let shape : List RuleProblem :=
    match spec with
    | .map record => recordProblems record
    | .list [] | .tuple [] => [.empty]
    | _ => []
  shape ++ (s.actionProblems spec.actionList).map .actions

/-- The rule that is defined. -/
def rule (s : Streams) (target : StateRef) (spec : Value) : Rule :=
  let actions := s.functions spec.actionList
  match spec with
  | .map _ =>
    { target, predicate := .ofValue (spec.field "rule"), label := (spec.field "message").text?
      actions, kind := .labeled }
  | .list (first :: _) | .tuple (first :: _) =>
    { target, predicate := .ofValue first, label := none, actions
      kind := (Predicate.ofValue first).kind }
  | v =>
    { target, predicate := .ofValue v, label := none, actions, kind := (Predicate.ofValue v).kind }

end Streams

/-- The place of the state that is declared under a name equal to `target`. -/
def placeOf (names : List Value) (target : Value) : Option Nat :=
  names.findIdx? fun name => name.eqv target

namespace Streams

/-- What is wrong with a pair of a target and the definition of a rule, if states are declared under
some names. -/
def ruleViolations (s : Streams) (names : List Value) (source target spec : Value) : List Cause :=
  match placeOf names target with
  | none => [.unknownState target (some source)]
  | some place => (s.ruleProblems spec).map (.rule source (names[place]?.getD .null))

/-- What is wrong with a value that must list the rules of a state. -/
def rulePairViolations (s : Streams) (source spec : Value) : List Cause :=
  match spec with
  | .null => []
  | spec => s.pairViolations (.notRules source) (fun i item => .notRulePair i source item) spec

/-- What is wrong with the rules of a state. -/
def rulesViolations (s : Streams) (names : List Value) (source spec : Value) : List Cause :=
  s.rulePairViolations source spec ++
    (s.pairs spec).flatMap fun (target, rule) => s.ruleViolations names source target rule

/-- The rules of a specification with the targets they resolve to, for a table without violations.
-/
def rules (s : Streams) (self : MachineRef) (names : List Value) (spec : Value) : List Rule :=
  (s.pairs spec).map fun (target, rule) =>
    s.rule { machine := self, index := (placeOf names target).getD 0 } rule

/-- The streams in the rules of a state. -/
def ruleSources (s : Streams) (spec : Value) : List Nat :=
  spec.sources ++ (s.pairs spec).flatMap fun (_, rule) => rule.actionList.sources

-- ---------------------------------------------------------------------------
-- Entries
-- ---------------------------------------------------------------------------

end Streams

/-- What is wrong with a name if some names were declared before. -/
def nameViolations (earlier : List Value) (name : Value) : List Cause :=
  violationIf (!name.hashable) (.unhashableName name) ++
    violationIf (earlier.any fun other => other.eqv name) (.duplicateState name)

/-- What is wrong with the definition of a state, apart from what it lists. -/
def definitionViolations (name definition : Value) : List Cause :=
  match definition with
  | .null => []
  | .map entries =>
    let unknown := Entries.strayKeys definitionKeys entries
    violationIf (!unknown.isEmpty) (.unknownDefinitionKeys name unknown)
  | v => [.notDefinition name v.typeName]

/-- The lists of actions of a state, in the order in which they are read. -/
def ActionSlot.all : List ActionSlot := [.onEnter, .body, .onExit]

namespace Streams

/-- What is wrong with an entry of a table, apart from its rules. -/
def entryViolations (s : Streams) (earlier : List Value) (name definition : Value) : List Cause :=
  nameViolations earlier name ++ definitionViolations name definition ++
    ActionSlot.all.flatMap fun slot =>
      (s.actionProblems (definition.field slot.key)).map (.actions (.slot slot name))

/-- What an entry declares, for a table without violations. -/
def declaration (s : Streams) (name definition : Value) : Declaration where
  name
  onEnter := s.functions (definition.field ActionSlot.onEnter.key)
  body := s.functions (definition.field ActionSlot.body.key)
  onExit := s.functions (definition.field ActionSlot.onExit.key)
  rules := definition.field "rules"

/-- The streams in the action lists of a state. -/
def actionSources (definition : Value) : List Nat :=
  ActionSlot.all.flatMap fun slot => (definition.field slot.key).sources

-- ---------------------------------------------------------------------------
-- Tables
-- ---------------------------------------------------------------------------

/-- The names in a table, well formed or not. -/
def names (s : Streams) (table : Value) : List Value := (s.pairs table).map Prod.fst

/-- **Everything that is wrong with a table,** in the order in which it matters. -/
def violations (s : Streams) (table : Value) : List Cause :=
  let names := s.names table
  s.pairViolations (.notTable table.typeName) .notTableEntry table ++
    ((s.pairs table).zipIdx.flatMap fun ((name, definition), i) =>
      s.entryViolations (names.take i) name definition) ++
    (s.pairs table).flatMap fun (name, definition) =>
      s.rulesViolations names name (definition.field "rules")

/-- Whether a cause is a flaw of a table, or of the definition of a rule in it. -/
def FlawOfTable (cause : Cause) : Prop := .table ∈ cause.errorClass.ancestors

/-- What is wrong with items is a flaw of the table if the two complaints about items are. -/
theorem flaw_of_mem_itemViolations {β : Type} {s : Streams} {kind : Value → Option β}
    {notItems : Cause} {problem : Nat → Value → Cause} {v : Value} {cause : Cause}
    (hItems : FlawOfTable notItems) (hProblem : ∀ i item, FlawOfTable (problem i item))
    (h : cause ∈ s.itemViolations kind notItems problem v) : FlawOfTable cause := by
  unfold itemViolations at h
  split at h
  · obtain rfl := List.mem_singleton.mp h
    exact hItems
  · obtain ⟨⟨item, i⟩, -, hCause⟩ := List.mem_flatMap.mp h
    obtain rfl := (mem_violationIf.mp hCause).2
    exact hProblem i item

/-- The same for pairs. -/
theorem flaw_of_mem_pairViolations {s : Streams} {notPairs : Cause}
    {notPair : Nat → Value → Cause} {v : Value} {cause : Cause} (hPairs : FlawOfTable notPairs)
    (hPair : ∀ i item, FlawOfTable (notPair i item))
    (h : cause ∈ s.pairViolations notPairs notPair v) : FlawOfTable cause := by
  unfold pairViolations at h
  split at h
  · cases h
  · exact flaw_of_mem_itemViolations hPairs hPair h

/-- Whatever is wrong with an entry is a flaw of the table. -/
theorem flaw_of_mem_entryViolations {s : Streams} {earlier : List Value} {name definition : Value}
    {cause : Cause} (h : cause ∈ s.entryViolations earlier name definition) :
    FlawOfTable cause := by
  -- the name, its being new, the definition, and the action lists
  rcases List.mem_append.mp h with h | h
  · rcases List.mem_append.mp h with h | h
    · rcases List.mem_append.mp h with h | h
      · obtain rfl := (mem_violationIf.mp h).2
        exact ErrorClass.self_mem_ancestors .table
      · obtain rfl := (mem_violationIf.mp h).2
        exact ErrorClass.table_mem_duplicateState
    · unfold definitionViolations at h
      split at h
      · cases h
      · obtain rfl := (mem_violationIf.mp h).2
        exact ErrorClass.self_mem_ancestors .table
      · obtain rfl := List.mem_singleton.mp h
        exact ErrorClass.self_mem_ancestors .table
  · obtain ⟨slot, -, h⟩ := List.mem_flatMap.mp h
    obtain ⟨problem, -, rfl⟩ := List.mem_map.mp h
    exact ErrorClass.self_mem_ancestors .table

/-- **Whatever is wrong with a table is a flaw of the table,** unless a rule in it leads to a state
that there is not. -/
theorem errorClass_of_violation {s : Streams} {table : Value} {cause : Cause}
    (h : cause ∈ s.violations table) : FlawOfTable cause ∨ cause.errorClass = .unknownState := by
  rcases List.mem_append.mp h with h | h
  · rcases List.mem_append.mp h with h | h
    · refine .inl (flaw_of_mem_pairViolations ?_ (fun _ _ => ?_) h)
      · exact ErrorClass.self_mem_ancestors .table
      · exact ErrorClass.self_mem_ancestors .table
    · obtain ⟨_, -, h⟩ := List.mem_flatMap.mp h
      exact .inl (flaw_of_mem_entryViolations h)
  · -- only a target that is not declared is a look-up that failed
    obtain ⟨⟨name, definition⟩, -, h⟩ := List.mem_flatMap.mp h
    rcases List.mem_append.mp h with h | h
    · unfold rulePairViolations at h
      split at h
      · cases h
      · refine .inl (flaw_of_mem_pairViolations ?_ (fun _ _ => ?_) h)
        · exact ErrorClass.table_mem_ruleDefinition
        · exact ErrorClass.table_mem_ruleDefinition
    · obtain ⟨⟨target, rule⟩, -, h⟩ := List.mem_flatMap.mp h
      change cause ∈ s.ruleViolations _ name target rule at h
      unfold ruleViolations at h
      split at h
      · obtain rfl := List.mem_singleton.mp h
        exact .inr rfl
      · obtain ⟨problem, -, rfl⟩ := List.mem_map.mp h
        exact .inl ErrorClass.table_mem_ruleDefinition

/-- The machine that a table describes, to be called `self`. -/
def machine (s : Streams) (self : MachineRef) (table : Value) : Machine :=
  let declarations := (s.pairs table).map fun (name, definition) => s.declaration name definition
  .withRules declarations (declarations.map fun d => s.rules self (s.names table) d.rules)

/-- The streams that are read in a table. -/
def sources (s : Streams) (table : Value) : List Nat :=
  table.sources ++ ((s.pairs table).flatMap fun (_, definition) => actionSources definition) ++
    (s.pairs table).flatMap fun (_, definition) => s.ruleSources (definition.field "rules")

/-- What the rules in a table lead to. -/
def targets (s : Streams) (table : Value) : List Value :=
  (s.pairs table).flatMap fun (_, definition) => (s.pairs (definition.field "rules")).map Prod.fst

/-- The tables of which violations are listed, for a machine to be called `self`. -/
structure Lists (s : Streams) (self : MachineRef) (table : Value) : Prop where
  /-- No stream stands in two of the places that are read. -/
  once : (s.sources table).Nodup
  /-- A state that a rule leads to is of a machine that was built before, and is not the name of a
  state in the table. -/
  targets : ∀ target ∈ s.targets table, ∀ ref, target = .state ref →
    ref.machine < self ∧ target ∉ s.names table

end Streams

end RuleMachine
