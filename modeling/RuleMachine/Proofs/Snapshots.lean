import RuleMachine.Proofs.Callable
import RuleMachine.Proofs.Mentions
import RuleMachine.Proofs.References
import RuleMachine.Proofs.Reports
import RuleMachine.Proofs.Static

/-!
# Snapshots of tables

A snapshot of the table of a machine is the same at every moment. The drawing of a machine is made
of nothing else, but names are written in it, and what is written of a name may depend on the
machines that it mentions; so the drawing is the same as long as these are where they were.

A snapshot tells enough to build a machine from it that has the same snapshot: the names of states,
in order, and what each rule leads to, with its label. Only the predicates must be put in.

Main statement: `Config.static_snapshot`.
-/

namespace RuleMachine

-- ---------------------------------------------------------------------------
-- Drawings
-- ---------------------------------------------------------------------------

/-- The drawing of a machine, as DOT text. -/
def World.drawing (w : World) (style : Digraph.Style) (m : MachineRef) : String :=
  ((w.machine m).digraph w.refText style).source

/-- A drawing depends on how the names in a table are written. -/
theorem Digraph.ofTable_congr {refs refs' : RefText} {table : List Machine.Row}
    (hNames : ∀ row ∈ table, row.name.plain refs' = row.name.plain refs)
    (hTargets : ∀ row ∈ table, ∀ rule ∈ row.rules, rule.1.plain refs' = rule.1.plain refs)
    (style : Digraph.Style) : ofTable refs' style table = ofTable refs style table := by
  have hNodes : table.map (fun row => row.name.plain refs') =
      table.map fun row => row.name.plain refs := List.map_congr_left hNames
  have hEdges : table.flatMap (edgeStatements refs') = table.flatMap (edgeStatements refs) := by
    refine List.flatMap_congr fun row hRow => List.map_congr_left fun rule hRule => ?_
    simp only [hNames row hRow, hTargets row hRow rule hRule]
  rw [ofTable, ofTable, hNodes, hEdges]

theorem Machine.names_table (m : Machine) : m.states.map State.name = m.table.map Row.name := by
  rw [table, List.map_map]
  rfl

/-- What a row of the static table says about the state at its place. -/
theorem Machine.getElem?_table (m : Machine) (i : Nat) {row : Row} (h : m.table[i]? = some row) :
    i < m.states.length ∧ row.name = m.nameOf i ∧
      row.rules = (m.state i).rules.map fun rule => (m.nameOf rule.target.index, rule.label) := by
  rw [table, List.getElem?_map] at h
  obtain ⟨s, hs, rfl⟩ := Option.map_eq_some_iff.mp h
  obtain ⟨hi, -⟩ := List.getElem?_eq_some_iff.mp hs
  have hState : m.state i = s := by rw [state, hs, Option.getD_some]
  exact ⟨hi, by rw [nameOf, hState], by rw [hState]⟩

/-- The rows of the table of a machine. -/
theorem Machine.mem_table {m : Machine} {row : Row} (h : row ∈ m.table) :
    ∃ i < m.states.length, row.name = m.nameOf i ∧
      row.rules = (m.state i).rules.map fun rule => (m.nameOf rule.target.index, rule.label) := by
  obtain ⟨i, hi⟩ := List.mem_iff_getElem?.mp h
  exact ⟨i, m.getElem?_table i hi⟩

/-- The static table depends on what was declared and on nothing else. -/
theorem Machine.table_of_declared {m m' : Machine} (h : m'.declared = m.declared) :
    m'.table = m.table := by
  have hTable (m : Machine) : m.table = m.declared.map fun s =>
      { name := s.name
        rules := s.rules.map fun rule => (m.nameOf rule.target.index, rule.label) } := by
    rw [declared, List.map_map]
    rfl
  rw [hTable m', hTable m, h]
  simp only [nameOf_of_declared h]

/-- **A machine is drawn alike** as long as the machines that its names mention are where they
were. -/
theorem World.drawing_alike {w w' : World} {m : MachineRef}
    (hDeclared : ∀ ref < w.machines.length, (w'.machine ref).declared = (w.machine ref).declared)
    (hLength : w.machines.length ≤ w'.machines.length)
    (hTable : (w'.machine m).table = (w.machine m).table) (hNames : w.NamesAlike w' m)
    (style : Digraph.Style) : w'.drawing style m = w.drawing style m := by
  have hName (i : Nat) := plain_alike hDeclared hLength (hNames i)
  rw [drawing, drawing, Machine.digraph, Machine.digraph, hTable]
  -- a drawing shows names of states as rows and as targets of rules
  refine congrArg Digraph.source (Digraph.ofTable_congr (fun row hRow => ?_)
    (fun row hRow rule hRule => ?_) style)
  · obtain ⟨i, -, hRowName, -⟩ := Machine.mem_table hRow
    rw [hRowName]
    exact hName i
  · obtain ⟨i, -, -, hRules⟩ := Machine.mem_table hRow
    rw [hRules] at hRule
    obtain ⟨r, -, rfl⟩ := List.mem_map.mp hRule
    exact hName r.target.index

-- ---------------------------------------------------------------------------
-- Tables made of snapshots
-- ---------------------------------------------------------------------------

/-- A rule as a record, with some predicate. -/
def ruleRecord (label : Option String) (predicate : Value) : Value :=
  .map [(.text "rule", predicate), (.text "message", (label.map Value.text).getD .null)]

/-- The definition of a state in a snapshot, with some predicates for its rules. -/
def Machine.Row.definition (row : Row) (predicates : Nat → Value) : Value :=
  .map [(.text "rules", .list (row.rules.zipIdx.map fun (rule, j) =>
    .tuple [rule.1, ruleRecord rule.2 (predicates j)]))]

/-- A snapshot as a table, with predicates for the rules of each state. -/
def relisted (predicates : Nat → Nat → Value) (rows : List Machine.Row) : Value :=
  .list (rows.zipIdx.map fun (row, i) => .tuple [row.name, row.definition (predicates i)])

section

variable (s : Streams) (predicates : Nat → Nat → Value) (rows : List Machine.Row)

theorem pairs_relisted : s.pairs (relisted predicates rows) =
    rows.zipIdx.map fun (row, i) => (row.name, row.definition (predicates i)) := by
  simp [Streams.pairs, Streams.itemsOf, relisted, Streams.items?, List.filterMap_map,
    Function.comp_def, Value.pair?]

theorem names_relisted : s.names (relisted predicates rows) = rows.map Machine.Row.name := by
  rw [Streams.names, pairs_relisted, List.map_map]
  conv_rhs => rw [← List.zipIdx_map_fst 0 rows, List.map_map]
  rfl

variable (row : Machine.Row) (choices : Nat → Value)

/-- A row has rules and no actions. -/
theorem field_definition (key : String) : (row.definition choices).field key =
    if key = "rules" then .list (row.rules.zipIdx.map fun (rule, j) =>
      .tuple [rule.1, ruleRecord rule.2 (choices j)]) else .null := by
  rw [Machine.Row.definition, Value.field_map, Entries.get?, Entries.get?]
  by_cases h : key = "rules"
  · rw [if_pos h, h, if_pos (Value.eqv_refl _)]
    rfl
  · have hOther : (Value.text "rules").eqv (.text key) = false := by
      simp [Value.eqv, Ne.symm h]
    rw [if_neg h, hOther]
    rfl

/-- Each rule of a row becomes a pair of the name of its target and a record. -/
theorem pairs_definition : s.pairs ((row.definition choices).field "rules") =
    row.rules.zipIdx.map fun (rule, j) => (rule.1, ruleRecord rule.2 (choices j)) := by
  rw [field_definition, if_pos rfl]
  simp [Streams.pairs, Streams.itemsOf, Streams.items?, List.filterMap_map, Function.comp_def,
    Value.pair?]

/-- Without actions nothing is read from streams. -/
theorem actionSources_definition : Streams.actionSources (row.definition choices) = [] := by
  refine List.flatMap_eq_nil_iff.mpr fun slot _ => ?_
  rw [field_definition, if_neg (by cases slot <;> decide)]
  rfl

variable (label : Option String) (choice : Value)

/-- The record of a rule has no actions. -/
theorem actionList_ruleRecord : (ruleRecord label choice).actionList = .null := by
  simp [ruleRecord, Value.actionList, Entries.get?, Value.eqv]

theorem message_ruleRecord :
    (ruleRecord label choice).field "message" = (label.map Value.text).getD .null := by
  simp [ruleRecord, Value.field_map, Entries.get?, Value.eqv]

/-- The label is written into the record and read again. -/
theorem label_rule (target : StateRef) :
    (s.rule target (ruleRecord label choice)).label = label := by
  show ((ruleRecord label choice).field "message").text? = label
  rw [message_ruleRecord]
  cases label <;> rfl

/-- Any value but a sequence or a map may be put in for a predicate. -/
theorem ruleProblems_ruleRecord (h : choice.composite = false) :
    s.ruleProblems (ruleRecord label choice) = [] := by
  have hRule : (ruleRecord label choice).field "rule" = choice := by
    simp [ruleRecord, Value.field_map, Entries.get?, Value.eqv]
  have hLabels : ((ruleRecord label choice).field "message").labels = true := by
    rw [message_ruleRecord]
    cases label <;> rfl
  -- all three fields are there, none besides them, and the rule is no container
  have hRecord : recordProblems
      [(.text "rule", choice), (.text "message", (label.map Value.text).getD .null)] = [] := by
    rw [ruleRecord] at hRule hLabels
    simp [recordProblems, hRule, hLabels, h, violationIf, Entries.strayKeys, Entries.keys,
      recordKeys, Value.text?, Entries.contains, Entries.get?, Value.eqv]
  show recordProblems _ ++ List.map _ (s.actionProblems (ruleRecord label choice).actionList) = []
  rw [hRecord, actionList_ruleRecord]
  rfl

end

-- ---------------------------------------------------------------------------
-- Building from a snapshot
-- ---------------------------------------------------------------------------

/-- What is known of a machine that was read from a table, for building another one like it. -/
structure Machine.Copyable (ref : MachineRef) (m : Machine) : Prop extends m.WellFormed ref where
  named : m.Named
  callable : ∀ i < m.states.length, m.Callable (m.state i).rules

namespace Machine.Copyable

variable {ref : MachineRef} {m : Machine} (h : m.Copyable ref)
include h

/-- Whether a machine can be copied depends on what was declared. -/
theorem of_declared {m' : Machine} (hDeclared : m'.declared = m.declared) : m'.Copyable ref where
  toWellFormed := h.toWellFormed.of_declared hDeclared
  named := h.named.of_declared hDeclared
  callable i hi rule hRule := by
    rw [length_of_declared hDeclared] at hi
    rw [rules_of_declared hDeclared] at hRule
    rw [nameOf_of_declared hDeclared]
    exact h.callable i hi rule hRule

/-- The names of a machine are keys. -/
theorem hashable {name : Value} (hName : name ∈ m.table.map Row.name) : name.hashable = true := by
  obtain ⟨row, hRow, rfl⟩ := List.mem_map.mp hName
  obtain ⟨i, hi, hName, -⟩ := mem_table hRow
  rw [hName]
  exact h.named i hi

/-- The names in a snapshot are the names of the states, so states are found by them. -/
theorem placeOf_nameOf {i : Nat} (hi : i < m.states.length) (hState : (m.nameOf i).state? = none) :
    placeOf (m.table.map Row.name) (m.nameOf i) = some i := by
  have hValue (s : StateRef) : m.nameOf i ≠ .state s := by
    intro hSame
    rw [hSame] at hState
    cases hState
  have hResolved : m.resolve? ref (m.nameOf i) = placeOf (m.table.map Row.name) (m.nameOf i) :=
    resolve?_eq_placeOf m.names_table (fun name hName => h.hashable hName) fun s hSame =>
      absurd hSame (hValue s)
  rw [← hResolved]
  exact h.toWellFormed.resolve?_of_eqv h.named hi (Value.eqv_refl _) hValue

/-- What a rule in a snapshot leads to. -/
theorem rule {row : Row} (hRow : row ∈ m.table) {rule : Value × Option String}
    (hRule : rule ∈ row.rules) : ∃ i < m.states.length, rule.1 = m.nameOf i ∧
      rule.1.state? = none ∧ placeOf (m.table.map Row.name) rule.1 = some i := by
  obtain ⟨i, hi, -, hRules⟩ := mem_table hRow
  rw [hRules] at hRule
  obtain ⟨r, hr, rfl⟩ := List.mem_map.mp hRule
  obtain ⟨-, hTarget⟩ := h.targets i hi r hr
  have hState := h.callable i hi r hr
  exact ⟨r.target.index, hTarget, rfl, hState, h.placeOf_nameOf hTarget hState⟩

/-- A name is not equal to an earlier one. -/
theorem new {row : Row} {i : Nat} (hRow : m.table[i]? = some row) :
    ((m.table.map Row.name).take i).any (fun other => other.eqv row.name) = false := by
  obtain ⟨hi, hName, -⟩ := m.getElem?_table i hRow
  refine List.any_eq_false.mpr fun other hOther => Bool.eq_false_iff.mp ?_
  -- two rows of one name would be two declared names of one machine
  obtain ⟨j, hj⟩ := List.mem_iff_getElem?.mp hOther
  rw [List.getElem?_take, List.getElem?_map] at hj
  split at hj
  · rename_i hji
    obtain ⟨earlier, hEarlier, rfl⟩ := Option.map_eq_some_iff.mp hj
    obtain ⟨hLt, hEarlierName, -⟩ := m.getElem?_table j hEarlier
    rw [hName, hEarlierName]
    exact h.distinct j hLt i hi (Nat.ne_of_lt hji)
  · cases hj

variable {predicates : Nat → Nat → Value} (hChoice : ∀ i j, (predicates i j).composite = false)
include hChoice

/-- **Nothing is wrong with a snapshot as a table.** -/
theorem violations_relisted (s : Streams) : s.violations (relisted predicates m.table) = [] := by
  rw [Streams.violations, names_relisted, pairs_relisted]
  refine List.append_eq_nil_iff.mpr ⟨List.append_eq_nil_iff.mpr ⟨?shape, ?entries⟩, ?rules⟩
  case shape =>
    refine misfits_eq_nil fun item hItem => ?_
    obtain ⟨⟨row, i⟩, -, rfl⟩ := List.mem_map.mp hItem
    rfl
  case entries =>
    refine List.flatMap_eq_nil_iff.mpr fun item hItem => ?_
    obtain ⟨entry, i⟩ := item
    simp only [List.mem_zipIdx_iff_getElem?, List.getElem?_map, List.getElem?_zipIdx,
      Option.map_map] at hItem
    obtain ⟨row, hRow, rfl⟩ := Option.map_eq_some_iff.mp hItem
    have hName : row.name ∈ m.table.map Row.name :=
      List.mem_map_of_mem (List.mem_of_getElem? hRow)
    -- the names of a machine are keys, and no two are equal
    have hNames : nameViolations ((m.table.map Row.name).take i) row.name = [] := by
      simp [nameViolations, violationIf, h.hashable hName, h.new hRow]
    have hKeys (predicates : Nat → Value) :
        definitionViolations row.name (row.definition predicates) = [] := by
      simp [definitionViolations, Row.definition, violationIf, Entries.strayKeys, Entries.keys,
        definitionKeys, Value.text?]
    refine List.append_eq_nil_iff.mpr ⟨List.append_eq_nil_iff.mpr ⟨hNames, hKeys _⟩, ?_⟩
    refine List.flatMap_eq_nil_iff.mpr fun slot _ => ?_
    rw [field_definition, if_neg (by cases slot <;> decide)]
    rfl
  case rules =>
    refine List.flatMap_eq_nil_iff.mpr fun entry hEntry => ?_
    obtain ⟨⟨row, i⟩, hRow, rfl⟩ := List.mem_map.mp hEntry
    have hRow : row ∈ m.table := List.mem_of_getElem? (List.mem_zipIdx_iff_getElem?.mp hRow)
    refine List.append_eq_nil_iff.mpr ⟨?_, List.flatMap_eq_nil_iff.mpr fun pair hPair => ?_⟩
    · rw [field_definition, if_pos rfl]
      have hShape (items : List Value) : s.rulePairViolations row.name (.list items) =
        misfits Value.pair? (fun i item => .notRulePair i row.name item) items := rfl
      rw [hShape]
      refine misfits_eq_nil fun item hItem => ?_
      obtain ⟨⟨rule, j⟩, -, rfl⟩ := List.mem_map.mp hItem
      rfl
    · rw [pairs_definition] at hPair
      obtain ⟨⟨rule, j⟩, hRule, rfl⟩ := List.mem_map.mp hPair
      have hRule : rule ∈ row.rules := List.mem_of_getElem? (List.mem_zipIdx_iff_getElem?.mp hRule)
      -- a rule of the machine leads to one of its states, whose name is found at the place of the
      -- state
      obtain ⟨place, -, -, -, hPlace⟩ := h.rule hRow hRule
      dsimp only
      rw [Streams.ruleViolations, hPlace]
      simp only [ruleProblems_ruleRecord s rule.2 _ (hChoice i j), List.map_nil]

omit hChoice in
/-- The machine that a snapshot describes as a table has the same snapshot. -/
theorem table_relisted (s : Streams) (self : MachineRef) :
    (s.machine self (relisted predicates m.table)).table = m.table := by
  rw [Streams.table_machine, names_relisted, pairs_relisted, List.map_map]
  conv_rhs => rw [← List.zipIdx_map_fst 0 m.table]
  refine List.map_congr_left fun ⟨row, i⟩ hRow => ?_
  have hRow : row ∈ m.table := List.mem_of_getElem? (List.mem_zipIdx_iff_getElem?.mp hRow)
  refine congrArg (Row.mk row.name) ?_
  rw [pairs_definition, List.map_map]
  conv_rhs => rw [← List.zipIdx_map_fst 0 row.rules]
  refine List.map_congr_left fun ⟨rule, j⟩ hRule => ?_
  have hRule : rule ∈ row.rules := List.mem_of_getElem? (List.mem_zipIdx_iff_getElem?.mp hRule)
  obtain ⟨place, hLt, hTarget, -, hPlace⟩ := h.rule hRow hRule
  -- the target is found under its name, and shows the same name again
  have hName : (m.table.map Row.name)[place]?.getD .null = rule.1 := by
    rw [hTarget, nameOf_eq m.names_table]
  have hLabel (target : StateRef) := label_rule s rule.2 (predicates i j) target
  simp only [Function.comp_apply, hLabel, hPlace, Option.getD_some, hName]

omit hChoice in
/-- No stream is read in a snapshot, and no rule leads to a state that is given itself. -/
theorem lists_relisted (s : Streams) (self : MachineRef) :
    s.Lists self (relisted predicates m.table) := by
  have hEntry {entry : Value × Value} (hEntry : entry ∈ s.pairs (relisted predicates m.table)) :
      ∃ row ∈ m.table, ∃ i, entry = (row.name, row.definition (predicates i)) := by
    rw [pairs_relisted] at hEntry
    obtain ⟨⟨row, i⟩, hRow, rfl⟩ := List.mem_map.mp hEntry
    exact ⟨row, List.mem_of_getElem? (List.mem_zipIdx_iff_getElem?.mp hRow), i, rfl⟩
  constructor
  · -- nothing in the new list is a stream
    have hNone : s.sources (relisted predicates m.table) = [] := by
      refine List.append_eq_nil_iff.mpr ⟨List.append_eq_nil_iff.mpr ⟨rfl, ?_⟩, ?_⟩
      · refine List.flatMap_eq_nil_iff.mpr fun entry hMem => ?_
        obtain ⟨row, -, i, rfl⟩ := hEntry hMem
        exact actionSources_definition row _
      · refine List.flatMap_eq_nil_iff.mpr fun entry hMem => ?_
        obtain ⟨row, -, i, rfl⟩ := hEntry hMem
        refine List.append_eq_nil_iff.mpr ⟨?_, List.flatMap_eq_nil_iff.mpr fun pair hPair => ?_⟩
        · rw [field_definition, if_pos rfl]
          rfl
        · rw [pairs_definition] at hPair
          obtain ⟨⟨rule, j⟩, -, rfl⟩ := List.mem_map.mp hPair
          dsimp only
          rw [actionList_ruleRecord]
          rfl
    rw [hNone]
    exact List.nodup_nil
  · -- and no target is a State object
    intro target hTarget ref hState
    obtain ⟨entry, hMem, hTarget⟩ := List.mem_flatMap.mp hTarget
    obtain ⟨row, hRow, i, rfl⟩ := hEntry hMem
    dsimp only at hTarget
    rw [pairs_definition] at hTarget
    obtain ⟨pair, hPair, rfl⟩ := List.mem_map.mp hTarget
    obtain ⟨⟨rule, j⟩, hRule, rfl⟩ := List.mem_map.mp hPair
    have hRule : rule ∈ row.rules := List.mem_of_getElem? (List.mem_zipIdx_iff_getElem?.mp hRule)
    obtain ⟨-, -, -, hNoState, -⟩ := h.rule hRow hRule
    rw [show rule.1 = .state ref from hState] at hNoState
    cases hNoState

end Machine.Copyable

/-- **Every machine that was built can be copied.** -/
theorem readTable_copyable {self : MachineRef} {table : Value} {m : Machine} {s s' : Streams}
    (hTable : table.Precedes self) (hs : s.Precede self)
    (h : (readTable self table).result s = (.ok m, s')) : m.Copyable self where
  toWellFormed := (readTable_fresh h).1
  named := readTable_named h
  callable := readTable_callable hTable hs h

-- ---------------------------------------------------------------------------
-- Together
-- ---------------------------------------------------------------------------

/-- What a world knows by the time at which a machine is built from a table: neither the table nor
what is left in streams mentions states that are still to come. -/
structure World.Knows (w : World) (table : Value) : Prop where
  table : table.Precedes w.machines.length
  streams : w.streams.Precede w.machines.length

/-- What is built when a machine is built. -/
theorem World.copyable_of_construct {w w₁ : World} {table : Value} {m : MachineRef}
    (hKnows : w.Knows table) (h : w.construct table = (.ok m, w₁)) :
    m < w₁.machines.length ∧ (w₁.machine m).Copyable m := by
  rcases hRead : (readTable w.machines.length table).result w.streams with ⟨cause | built, t⟩
  · simp only [construct, hRead, Prod.mk.injEq] at h
    cases h.1
  · simp only [construct, hRead, Prod.mk.injEq] at h
    obtain ⟨hRef, rfl⟩ := h
    obtain rfl := Except.ok.inj hRef
    have hMachines : (w.machines ++ [built])[w.machines.length]? = some built :=
      List.getElem?_concat_length
    refine ⟨(List.getElem?_eq_some_iff.mp hMachines).1, ?_⟩
    show ((w.machines ++ [built])[w.machines.length]?.getD default).Copyable w.machines.length
    rw [hMachines]
    exact readTable_copyable hKnows.table hKnows.streams hRead

namespace Config

/-- A machine that was built without options is what its table says. -/
theorem copyable_of_build {handler : Handler} {w w₁ : World} {table : Value} {m : MachineRef}
    (hKnows : w.Knows table) (h : (begin (Run.build table none) w).Ends handler (.ok m) w₁) :
    m < w₁.machines.length ∧ (w₁.machine m).Copyable m := by
  obtain ⟨ref, v, hConstruct, hRest⟩ := h.of_bind
  obtain ⟨hRef, rfl⟩ := hRest.unique (.refl _)
  obtain rfl := Except.ok.inj hRef
  exact World.copyable_of_construct hKnows hConstruct.of_act

/-- A copy of a machine, built from a snapshot. -/
theorem build_relisted {handler : Handler} {w : World} {m : MachineRef}
    (hm : m < w.machines.length) (hCopyable : (w.machine m).Copyable m)
    {predicates : Nat → Nat → Value} (hChoice : ∀ i j, (predicates i j).composite = false) :
    ∃ w', (begin (Run.build (relisted predicates (w.machine m).table) none) w).Ends handler
        (.ok w.machines.length) w' ∧
      (w'.machine w.machines.length).table = (w.machine m).table ∧
      ∀ style, w'.drawing style w.machines.length = w'.drawing style m := by
  obtain ⟨w', hEnds, hMachines⟩ := build_accepts
    (hCopyable.lists_relisted w.streams w.machines.length)
    (hCopyable.violations_relisted hChoice w.streams)
  -- the machine that is built comes after the one it is a copy of
  have hOld : w'.machine m = w.machine m := by
    rw [World.machine, hMachines, List.getElem?_append_left hm, World.machine]
  have hTable : (w'.machine w.machines.length).table = (w.machine m).table := by
    rw [World.machine, hMachines, List.getElem?_concat_length, Option.getD_some]
    exact hCopyable.table_relisted w.streams _
  refine ⟨w', hEnds, hTable, fun style => ?_⟩
  rw [World.drawing, World.drawing, Machine.digraph, Machine.digraph, hTable, hOld]

/-- **The snapshot of a table is the same at every moment, and tells how to build the machine
again.** The drawing is the same at two moments as long as the machines that names mention are where
they were. A machine that is built from a snapshot, with anything put in for the predicates that is
no sequence and no map, has the same snapshot and the same drawing. -/
theorem static_snapshot {α : Type} (handler : Handler) {w w₁ : World} {table : Value}
    {m : MachineRef} (hKnows : w.Knows table)
    (hBuilt : (begin (Run.build table none) w).Ends handler (.ok m) w₁) (p : Program α) {i j : Nat}
    (hij : i ≤ j) :
    let world (n : Nat) :=
      (({ program := p, world := w₁ } : Config α).after .standard handler n).world
    ((world j).machine m).table = ((world i).machine m).table ∧
    ((world i).NamesAlike (world j) m →
      ∀ style, (world j).drawing style m = (world i).drawing style m) ∧
    ∀ predicates : Nat → Nat → Value, (∀ k l, (predicates k l).composite = false) → ∃ w₂,
      (begin (Run.build (relisted predicates ((world j).machine m).table) none) (world j)).Ends
          handler (.ok (world j).machines.length) w₂ ∧
        (w₂.machine (world j).machines.length).table = ((world j).machine m).table ∧
        ∀ style, w₂.drawing style (world j).machines.length = w₂.drawing style m := by
  intro world
  obtain ⟨hm, hCopyable⟩ := copyable_of_build hKnows hBuilt
  have hFirst (n : Nat) : Leads handler ({ program := p, world := w₁ } : Config α)
      (({ program := p, world := w₁ } : Config α).after .standard handler n) := ⟨n, rfl⟩
  have hLater : Leads handler (({ program := p, world := w₁ } : Config α).after .standard handler i)
      (({ program := p, world := w₁ } : Config α).after .standard handler j) :=
    ⟨j - i, by rw [← after_add, Nat.add_sub_cancel' hij]⟩
  have hThere (n : Nat) : m < (world n).machines.length :=
    Nat.lt_of_lt_of_le hm (hFirst n).length_le
  have hTable : ((world j).machine m).table = ((world i).machine m).table :=
    Machine.table_of_declared (hLater.declared_of_built (hThere i))
  -- a machine declares what it declared when it was built; the rest is read off that
  refine ⟨hTable, fun hNames style => ?_, fun predicates hChoice => ?_⟩
  · exact World.drawing_alike (fun ref hRef => hLater.declared_of_built hRef) hLater.length_le
      hTable hNames style
  · exact build_relisted (hThere j)
      (hCopyable.of_declared ((hFirst j).declared_of_built hm)) hChoice

/-- A lamp that can be switched on in two ways, and is still on when it is switched on again. -/
def lamp : Value :=
  .map
    [(.text "dark", .map [(.text "rules", .list
        [.tuple [.text "lit", .function "coin"],
          .tuple [.text "lit", .map [(.text "rule", .int 0), (.text "message", .text "fuse")]]])]),
      (.text "lit", .map [(.text "rules", .map
        [(.text "lit", .list [.int 1]), (.text "dark", .null)])])]

/-- The world in which there is a lamp. -/
def lampRoom : World := (World.empty.construct lamp).2

/-- The lamp is drawn in the dark as it was drawn at first, and there can be another lamp like it,
which is switched on in each way by a coin. -/
theorem static_snapshot_lamp :
    let w := ((begin (Run.start 0) lampRoom).after .standard penniless 20).world
    w.current? 0 = some { machine := 0, index := 0 } ∧
      (∀ style, w.drawing style 0 = lampRoom.drawing style 0) ∧
      ∃ w₂, (begin (Run.build (relisted (fun _ _ => .function "coin") (w.machine 0).table) none)
          w).Ends penniless (.ok 1) w₂ ∧
        (w₂.machine 1).table = (w.machine 0).table := by
  intro w
  have hKnows : World.empty.Knows lamp := ⟨fun s hs => (nomatch hs), fun id v hv => (nomatch hv)⟩
  have hBuilt : (begin (Run.build lamp none) World.empty).Ends penniless (.ok 0) lampRoom :=
    ⟨1, rfl⟩
  obtain ⟨-, hDrawing, hCopy⟩ := static_snapshot penniless hKnows hBuilt
    (ExceptT.run (Run.start 0)) (i := 0) (j := 20) (Nat.zero_le 20)
  have hNames : lampRoom.NamesAlike w 0
    | 0 | 1 | _ + 2 => fun _ hr => absurd hr (World.not_mentions rfl)
  obtain ⟨w₂, hEnds, hTable, -⟩ := hCopy (fun _ _ => .function "coin") fun _ _ => rfl
  exact ⟨by decide +kernel, hDrawing hNames, w₂, hEnds, hTable⟩

/-- A picture of the lamp, with the lamp itself for a name. Who looks at it puts on the light. -/
def picture : Value :=
  .list [.tuple [.machine 0, .map [(.text "on_enter", .function "look")]]]

/-- Whoever looks at the picture switches the lamp on. -/
def lookAt : Handler := fun _ _ => do
  let _ ← Run.start 0
  return .null

/-- Not every drawing stays the same. The name of the picture tells where the lamp stands. -/
theorem not_every_drawing_lasts :
    ∃ w₁, lampRoom.Knows picture ∧
      (begin (Run.build picture none) lampRoom).Ends lookAt (.ok 1) w₁ ∧
      ((begin (Run.start 1) w₁).after .standard lookAt 20).world.drawing .default 1 ≠
        w₁.drawing .default 1 := by
  refine ⟨(lampRoom.construct picture).2, ⟨fun r hr => ?_, fun id v hv => nomatch hv⟩, ⟨1, rfl⟩,
    by decide +kernel⟩
  obtain rfl := List.mem_singleton.mp hr
  exact nofun

end Config

end RuleMachine
