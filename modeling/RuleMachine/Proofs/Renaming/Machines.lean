import RuleMachine.Program.Primitive
import RuleMachine.Proofs.Renaming.Texts

/-!
# Machines under new numbers

Rules, machines, causes and everything else that holds values or references is renamed part by part.
What is looked up in a renamed machine is what was looked up in the machine, renamed, and a change
of the one comes to the same change of the other.

Main statements: `Machine.resolve?_rename`, states are found alike; and `Cause.message_rename` and
`Writing.text_rename`, texts are alike if the references in them are.
-/

namespace RuleMachine

variable (ρ : Renaming)

/-- What came of something, with the failure or the answer changed. -/
def mapOutcome {ε ε' α α' : Type} (f : ε → ε') (g : α → α') : Except ε α → Except ε' α'
  | .ok a => .ok (g a)
  | .error e => .error (f e)

-- ---------------------------------------------------------------------------
-- Causes
-- ---------------------------------------------------------------------------

/-- The place of an action list, in which the name of a state may be mentioned. -/
def ActionPlace.rename : ActionPlace → ActionPlace
  | named name => named name
  | slot which state => slot which (state.rename ρ)

/-- A problem with an action list, in which an item may be mentioned. -/
def ActionProblem.rename : ActionProblem → ActionProblem
  | notActions kind => notActions kind
  | notFunction index item => notFunction index (item.rename ρ)

/-- A problem with a rule. Most of them mention no value. -/
def RuleProblem.rename : RuleProblem → RuleProblem
  | unknownKeys keys => unknownKeys (keys.map (Value.rename ρ))
  | actions problem => actions (problem.rename ρ)
  | problem => problem

/-- A cause with every value in it renamed. All other parts, as kinds and positions, stay. -/
def Cause.rename : Cause → Cause
  | actions place problem => actions (place.rename ρ) (problem.rename ρ)
  | rule source target problem => rule (source.rename ρ) (target.rename ρ) (problem.rename ρ)
  | notRules source => notRules (source.rename ρ)
  | notRulePair index source item => notRulePair index (source.rename ρ) (item.rename ρ)
  | notTableEntry index item => notTableEntry index (item.rename ρ)
  | unhashableName name => unhashableName (name.rename ρ)
  | duplicateState name => duplicateState (name.rename ρ)
  | notDefinition state kind => notDefinition (state.rename ρ) kind
  | unknownDefinitionKeys state keys =>
    unknownDefinitionKeys (state.rename ρ) (keys.map (Value.rename ρ))
  | unknownState name referrer => unknownState (name.rename ρ) (referrer.map (Value.rename ρ))
  | ambiguous state candidates => ambiguous (state.rename ρ) (candidates.map (Value.rename ρ))
  | noTransition state => noTransition (state.rename ρ)
  | neverEntered state => neverEntered (state.rename ρ)
  | outlivedMachine state => outlivedMachine (state.rename ρ)
  | cause => cause

/-- Without new numbers a failure has the cause that it has. -/
theorem Cause.rename_identity (cause : Cause) : cause.rename .identity = cause := by
  have hActions (problem : ActionProblem) : problem.rename .identity = problem := by
    cases problem <;> simp [ActionProblem.rename]
  have hRule (problem : RuleProblem) : problem.rename .identity = problem := by
    cases problem <;> simp [RuleProblem.rename, hActions]
  have hPlace (place : ActionPlace) : place.rename .identity = place := by
    cases place <;> simp [ActionPlace.rename]
  have hReferrer (referrer : Option Value) : referrer.map (Value.rename .identity) = referrer := by
    cases referrer <;> simp
  cases cause <;> simp [rename, hActions, hRule, hPlace, hReferrer]

/-- A failure is renamed by its cause. Its message was worded when it arose, and stays. -/
def Fault.rename (fault : Fault) : Fault :=
  { cause := fault.cause.rename ρ, message := fault.message }

/-! The values that the message of a failure shows. -/

/-- The values that are written when the place of an action list is. -/
def ActionPlace.values : ActionPlace → List Value
  | named _ => []
  | slot _ state => [state]

def ActionProblem.values : ActionProblem → List Value
  | notActions _ => []
  | notFunction _ item => [item]

def RuleProblem.values : RuleProblem → List Value
  | unknownKeys keys => keys
  | actions problem => problem.values
  | _ => []

/-- The values that the message of a failure shows, in the order of its fields. -/
def Cause.values : Cause → List Value
  | actions place problem => place.values ++ problem.values
  | rule source target problem => source :: target :: problem.values
  | notRules state | notDefinition state _ | noTransition state | neverEntered state
  | outlivedMachine state => [state]
  | notRulePair _ source item => [source, item]
  | notTableEntry _ item => [item]
  | unhashableName name | duplicateState name => [name]
  | unknownDefinitionKeys state keys => state :: keys
  | unknownState name referrer => name :: referrer.toList
  | ambiguous state candidates => state :: candidates
  | _ => []

section

variable {ρ} {refs refs' : RefText}

/-- Messages are the same if the values that they show are written alike. -/
theorem ActionPlace.text_rename {place : ActionPlace} (h : refs.SameFor refs' ρ place.values) :
    (place.rename ρ).text refs' = place.text refs := by
  cases place with
  | named name => rfl
  | slot which state =>
    have hState := Value.plain_rename (h state List.mem_cons_self)
    exact congrArg (fun text => which.key ++ " of state " ++ inQuotes text) hState

theorem ActionProblem.text_rename {problem : ActionProblem}
    (h : refs.SameFor refs' ρ problem.values) :
    (problem.rename ρ).text refs' = problem.text refs := by
  cases problem with
  | notActions kind => rfl
  | notFunction index item =>
    have hItem := Value.literal_rename (h item List.mem_cons_self)
    exact congrArg (fun text => " item " ++ toString index ++ " is not callable: " ++ text) hItem

theorem RuleProblem.text_rename {problem : RuleProblem} (h : refs.SameFor refs' ρ problem.values) :
    (problem.rename ρ).text refs' = problem.text refs := by
  delta text
  cases problem with
  | unknownKeys keys =>
    have hKeys : refs.SameFor refs' ρ keys := h
    simp only [rename, map_plain_rename hKeys]
  | actions problem => exact ActionProblem.text_rename h
  | _ => rfl

/-- **Failures are worded alike.** -/
theorem Cause.message_rename {cause : Cause} (h : refs.SameFor refs' ρ cause.values) :
    (cause.rename ρ).message refs' = cause.message refs := by
  -- a message shows values as plain texts or as they are written in a script
  have hPlain {v : Value} (hv : v ∈ cause.values) : (v.rename ρ).plain refs' = v.plain refs :=
    Value.plain_rename (h v hv)
  have hLiteral {v : Value} (hv : v ∈ cause.values) :
      (v.rename ρ).literal refs' = v.literal refs := Value.literal_rename (h v hv)
  delta message
  cases cause with
  | actions place problem =>
    obtain ⟨hPlace, hProblem⟩ := List.forall_mem_append.mp h
    simp only [rename, ActionPlace.text_rename hPlace, ActionProblem.text_rename hProblem]
  | rule source target problem =>
    obtain ⟨-, hRest⟩ := List.forall_mem_cons.mp h
    have hProblem := RuleProblem.text_rename (List.forall_mem_cons.mp hRest).2
    simp only [rename, rulePlace, hPlain (v := source) (by simp [values]),
      hPlain (v := target) (by simp [values]), hProblem]
  | unknownDefinitionKeys state keys =>
    obtain ⟨-, hKeys⟩ := List.forall_mem_cons.mp h
    simp only [rename, hPlain (v := state) List.mem_cons_self, map_literal_rename hKeys]
  | ambiguous state candidates =>
    have hNames : (candidates.map (Value.rename ρ)).map (fun v => inQuotes (v.plain refs')) =
        candidates.map fun v => inQuotes (v.plain refs) := by
      rw [List.map_map]
      exact List.map_congr_left fun v hv => congrArg inQuotes (hPlain (List.mem_cons_of_mem _ hv))
    simp only [rename, hPlain (v := state) List.mem_cons_self, hNames]
  | unknownState name referrer =>
    have hName := hPlain (v := name) List.mem_cons_self
    rcases referrer with _ | referrer
    · simp only [rename, Option.map_none, hName]
    · have hReferrer := hPlain (v := referrer) (by simp [values])
      cases referrer with
      | null => simp only [rename, Option.map_some, Value.rename, hName]
      | _ =>
        simp only [Value.rename] at hReferrer
        simp only [rename, Option.map_some, Value.rename, hName, hReferrer]
  | notRulePair index source item =>
    simp only [rename, hPlain (v := source) (by simp [values]),
      hLiteral (v := item) (by simp [values])]
  | notTableEntry index item => simp only [rename, hLiteral (v := item) List.mem_cons_self]
  | notRules state | notDefinition state kind | noTransition state | neverEntered state
  | outlivedMachine state =>
    simp only [rename, hPlain (v := state) List.mem_cons_self]
  | unhashableName name | duplicateState name =>
    simp only [rename, hPlain (v := name) List.mem_cons_self,
      hLiteral (v := name) List.mem_cons_self]
  | raised kind message => cases kind <;> rfl
  | _ => rfl

end

-- ---------------------------------------------------------------------------
-- Rules and machines
-- ---------------------------------------------------------------------------

/-- A predicate that is a function has no values in it. -/
def Predicate.rename : Predicate → Predicate
  | function f => function f
  | constant v => constant (v.rename ρ)

@[simp] theorem Predicate.ofValue_rename (v : Value) :
    ofValue (v.rename ρ) = (ofValue v).rename ρ := by
  cases v <;> rfl

/-- A function stays a function under new numbers, and a constant a constant. -/
@[simp] theorem Predicate.kind_rename (p : Predicate) : (p.rename ρ).kind = p.kind := by
  cases p <;> rfl

/-- A rule with its target and a constant predicate renamed. Label and actions are texts and names
of functions. -/
def Rule.rename (rule : Rule) : Rule :=
  { rule with target := rule.target.rename ρ, predicate := rule.predicate.rename ρ }

/-- A rule under new numbers, with its target moved in a way of its own. -/
def Rule.carry (move : StateRef → StateRef) (rule : Rule) : Rule :=
  { rule with target := move rule.target, predicate := rule.predicate.rename ρ }

namespace Visit

/-- A visit with its name and its slots renamed. -/
def rename (visit : Visit) : Visit :=
  { name := visit.name.rename ρ, result := visit.result.rename ρ
    message := visit.message.rename ρ }

/-- The slots of a renamed visit hold what they held, renamed. -/
theorem get_rename (visit : Visit) (slot : Slot) :
    (visit.rename ρ).get slot = (visit.get slot).rename ρ := by
  cases slot <;> rfl

theorem put_rename (visit : Visit) (slot : Slot) (v : Value) :
    (visit.rename ρ).put slot (v.rename ρ) = (visit.put slot v).rename ρ := by
  cases slot <;> rfl

theorem slots_rename (visit : Visit) : (visit.rename ρ).slots = visit.slots.rename ρ := by
  rw [slots, slots, Value.record, Value.record, Value.rename_map]
  rfl

theorem toValue_rename (visit : Visit) : (visit.rename ρ).toValue = visit.toValue.rename ρ := by
  rw [toValue, slots_rename, toValue, Value.rename_tuple]
  rfl

end Visit

/-- A state with its name and its rules renamed. Positions of visits and actions stay. -/
def State.rename (s : State) : State :=
  { s with name := s.name.rename ρ, rules := s.rules.map (Rule.rename ρ) }

theorem State.actions_rename (s : State) (slot : ActionSlot) :
    (s.rename ρ).actions slot = s.actions slot := by
  cases slot <;> rfl

/-- Modifying an item of a list before or after changing all of them. -/
theorem modify_map_of_comm {α β : Type} (f : α → β) (g : α → α) (g' : β → β)
    (h : ∀ a, g' (f a) = f (g a)) (items : List α) (index : Nat) :
    (items.map f).modify index g' = (items.modify index g).map f := by
  apply List.ext_getElem?
  intro i
  simp only [List.getElem?_modify, List.getElem?_map]
  cases items[i]? with
  | none => rfl
  | some a =>
    simp only [Option.map_some]
    split
    · exact congrArg some (h a)
    · rfl

namespace Machine

/-- A machine with every value in it renamed: in its states, its history, its notes and its
predicate for being done. Where it stands in its table stays. -/
def rename (m : Machine) : Machine :=
  { m with
    states := m.states.map (State.rename ρ)
    history := m.history.map (Visit.rename ρ)
    notes := m.notes.rename ρ
    done := m.done.rename ρ }

variable (m : Machine)

@[simp] theorem length_states_rename : (m.rename ρ).states.length = m.states.length :=
  List.length_map _

theorem state_rename (index : Nat) : (m.rename ρ).state index = (m.state index).rename ρ := by
  simp only [state, rename, List.getElem?_map]
  cases m.states[index]? <;> rfl

theorem nameOf_rename (index : Nat) : (m.rename ρ).nameOf index = (m.nameOf index).rename ρ := by
  rw [nameOf, state_rename]
  rfl

/-- A state is found under a renamed name where it was found under the name, as equality of keys
does not depend on numbers. -/
theorem find?_rename (name : Value) : (m.rename ρ).find? (name.rename ρ) = m.find? name := by
  have hSame : ((fun s : State => s.name.eqv (name.rename ρ)) ∘ State.rename ρ) =
      fun s => s.name.eqv name := funext fun s => Value.eqv_rename ρ s.name name
  rw [find?, find?, Value.hashable_rename, rename, List.findIdx?_map, hSame]

/-- **States are found alike,** in a machine whose own states correspond. -/
theorem resolve?_rename_of_iff {self self' : MachineRef} {v : Value}
    (hSelf : ∀ s, v = .state s → (ρ .machine s.machine = self' ↔ s.machine = self)) :
    (m.rename ρ).resolve? self' (v.rename ρ) = m.resolve? self v := by
  cases v with
  | state ref =>
    simp only [Value.rename, resolve?, length_states_rename, StateRef.rename, hSelf ref rfl]
  | _ => exact find?_rename ρ m _

/-- What a value stands for in a machine does not depend on numbers either. -/
theorem resolve?_rename (self : MachineRef) (v : Value) :
    (m.rename ρ).resolve? (ρ .machine self) (v.rename ρ) = m.resolve? self v :=
  resolve?_rename_of_iff ρ m fun _ _ => (ρ .machine).injective.eq_iff

theorem currentName?_rename :
    (m.rename ρ).currentName? = m.currentName?.map (Value.rename ρ) := by
  show m.current.map (m.rename ρ).nameOf = (m.current.map m.nameOf).map (Value.rename ρ)
  rw [Option.map_map]
  exact congrArg (m.current.map ·) (funext fun index => nameOf_rename ρ m index)

/-- The previous state is where it was: it is found by the name in the last entry but one. -/
theorem previous?_rename : (m.rename ρ).previous? = m.previous? := by
  rw [previous?, rename, ← List.map_reverse, previous?]
  rcases m.history.reverse with _ | ⟨first, _ | ⟨second, rest⟩⟩
  · rfl
  · rfl
  · exact find?_rename ρ m second.name

/-- The visits to a state are at the positions where they were. -/
theorem visitsTo_rename (index : Nat) :
    (m.rename ρ).visitsTo index = (m.visitsTo index).map (Visit.rename ρ) := by
  rw [visitsTo, state_rename, visitsTo, List.map_filterMap]
  exact congrArg (List.filterMap · _) (funext fun position => List.getElem?_map)

theorem latest_rename (index : Nat) (slot : Slot) :
    (m.rename ρ).latest index slot = (m.latest index slot).rename ρ := by
  rw [latest, visitsTo_rename, List.getLast?_map, latest]
  cases (m.visitsTo index).getLast? with
  | none => rfl
  | some visit => exact visit.get_rename ρ slot

theorem slots_rename (index : Nat) (slot : Slot) :
    (m.rename ρ).slots index slot = (m.slots index slot).map (Value.rename ρ) := by
  rw [slots, visitsTo_rename, slots, List.map_map, List.map_map]
  exact congrArg (List.map · _) (funext fun visit => visit.get_rename ρ slot)

/-- No rules are added or lost. -/
theorem ruleCount_rename : (m.rename ρ).ruleCount = m.ruleCount := by
  rw [ruleCount, rename, List.flatMap_map, ruleCount]
  induction m.states with
  | nil => rfl
  | cons s rest ih =>
    rw [List.flatMap_cons, List.flatMap_cons, List.length_append, List.length_append, ih]
    exact congrArg (· + _) (List.length_map _)

/-! Changes come to the same. -/

/-- **Entering a state, resetting and writing to slots are done alike under new numbers.** -/
theorem enter_rename (index : Nat) : (m.rename ρ).enter index = (m.enter index).rename ρ := by
  by_cases h : index < m.states.length
  · have h' : index < (m.rename ρ).states.length := by rwa [length_states_rename]
    rw [enter_of_lt h', enter_of_lt h, nameOf_rename]
    have hStates := modify_map_of_comm (State.rename ρ)
      (fun s => { s with visits := s.visits ++ [m.history.length] })
      (fun s => { s with visits := s.visits ++ [m.history.length] }) (fun _ => rfl) m.states index
    simp only [rename, List.length_map, hStates, List.map_append]
    rfl
  · have h' : ¬ index < (m.rename ρ).states.length := by rwa [length_states_rename]
    rw [enter, if_neg h', enter, if_neg h]

theorem reset_rename : (m.rename ρ).reset = m.reset.rename ρ := by
  simp only [reset, rename, List.map_map]
  rfl

theorem setSlot_rename (index : Nat) (slot : Slot) (v : Value) :
    (m.rename ρ).setSlot index slot (v.rename ρ) = (m.setSlot index slot v).rename ρ := by
  have hVisits : ((m.rename ρ).state index).visits = (m.state index).visits := by
    rw [state_rename]
    rfl
  rw [setSlot, hVisits, setSlot]
  cases (m.state index).visits.getLast? with
  | none => rfl
  | some position =>
    have hHistory := modify_map_of_comm (Visit.rename ρ) (fun visit => visit.put slot v)
      (fun visit => visit.put slot (v.rename ρ)) (fun visit => visit.put_rename ρ slot v)
      m.history position
    exact congrArg (fun visits => { m.rename ρ with history := visits }) hHistory

end Machine

/-- A change of an option or a note, with the values in it renamed. -/
def Adjustment.rename : Adjustment → Adjustment
  | strict b => strict b
  | done p => done (p.rename ρ)
  | note key v => note (key.rename ρ) (v.rename ρ)
  | eraseNote key => eraseNote (key.rename ρ)

/-- Notes are kept by key, and equal keys are equal under new numbers. -/
theorem Adjustment.apply_rename (a : Adjustment) (m : Machine) :
    (a.rename ρ).apply (m.rename ρ) = (a.apply m).rename ρ := by
  cases a with
  | strict b => rfl
  | done p => rfl
  | note key v =>
    exact congrArg (fun notes => { m.rename ρ with notes := notes })
      (Entries.insert_rename ρ m.notes key v)
  | eraseNote key =>
    exact congrArg (fun notes => { m.rename ρ with notes := notes })
      (Entries.erase_rename ρ m.notes key)

-- ---------------------------------------------------------------------------
-- Snapshots
-- ---------------------------------------------------------------------------

/-- A row of a static table with all names in it renamed. -/
def Machine.Row.rename (row : Machine.Row) : Machine.Row :=
  { name := row.name.rename ρ
    rules := row.rules.map fun (target, label) => (target.rename ρ, label) }

/-- The static table of a renamed machine. -/
theorem Machine.table_rename (m : Machine) : (m.rename ρ).table = m.table.map (Row.rename ρ) := by
  have hRules (s : State) :
      (s.rename ρ).rules.map (fun rule => ((m.rename ρ).nameOf rule.target.index, rule.label)) =
        (s.rules.map fun rule => (m.nameOf rule.target.index, rule.label)).map
          fun (target, label) => (target.rename ρ, label) := by
    rw [State.rename, List.map_map, List.map_map]
    refine congrArg (s.rules.map ·) (funext fun rule => ?_)
    exact congrArg (·, rule.label) (nameOf_rename ρ m rule.target.index)
  rw [table, rename, List.map_map, table, List.map_map]
  refine congrArg (m.states.map ·) (funext fun s => ?_)
  exact congrArg (Row.mk (s.name.rename ρ)) (hRules s)

/-- The keys of a record are texts and stay. -/
theorem Value.record_rename (fields : List (String × Value)) :
    (Value.record fields).rename ρ = .record (fields.map fun (key, v) => (key, v.rename ρ)) := by
  rw [record, rename_map, record, List.map_map, List.map_map]
  rfl

/-- Rows become values alike. -/
theorem Machine.Row.toValue_rename (row : Machine.Row) :
    (row.rename ρ).toValue = row.toValue.rename ρ := by
  have hRule (target : Value) (label : Option String) :
      Value.record [("target", target.rename ρ), ("label", (label.map Value.text).getD .null)] =
        (Value.record
          [("target", target), ("label", (label.map Value.text).getD .null)]).rename ρ := by
    rw [Value.record_rename]
    cases label <;> rfl
  simp only [toValue, rename, List.map_map, Value.record_rename, Value.rename_list, List.map_cons,
    List.map_nil]
  refine congrArg (fun rules =>
    Value.record [("name", row.name.rename ρ), ("rules", .list rules)]) ?_
  exact congrArg (row.rules.map ·) (funext fun (target, label) => hRule target label)

theorem rawPairs_rename (history : List Visit) :
    rawPairs (history.map (Visit.rename ρ)) = (rawPairs history).map (Value.renamePair ρ) := by
  rw [rawPairs, List.map_map, rawPairs, List.map_map]
  refine congrArg (history.map ·) (funext fun visit => ?_)
  exact congrArg (visit.name.rename ρ, ·) (visit.slots_rename ρ)

-- ---------------------------------------------------------------------------
-- What is written out
-- ---------------------------------------------------------------------------

/-- The only value in options is the `done` one. -/
def Options.rename (o : Options) : Options := { o with done := o.done.rename ρ }

theorem Options.toValue_rename (o : Options) (text : String) :
    (o.rename ρ).toValue text = (o.toValue text).rename ρ := by
  rw [toValue, toValue, Value.record_rename]
  rfl

/-- The values in a row of a table. -/
def Machine.Row.values (row : Machine.Row) : List Value := row.name :: row.rules.map Prod.fst

namespace Writing

/-- What is to be written out, with the values in it renamed. -/
def rename : Writing → Writing
  | literal v => literal (v.rename ρ)
  | options o => options (o.rename ρ)
  | trace history => trace (history.map (Value.renamePair ρ))
  | drawing style table => drawing style (table.map (Machine.Row.rename ρ))

/-- Without new numbers the same is written out. -/
theorem rename_identity (x : Writing) : x.rename .identity = x := by
  have hRow (row : Machine.Row) : row.rename .identity = row := by
    obtain ⟨name, rules⟩ := row
    simp [Machine.Row.rename]
  have hRows (table : List Machine.Row) : table.map (Machine.Row.rename .identity) = table :=
    (List.map_congr_left fun row _ => hRow row).trans table.map_id
  cases x <;> simp [rename, Options.rename, hRows]

/-- The values that are shown. -/
def values : Writing → List Value
  | literal v => [v]
  | options o => [o.done]
  | trace history => history.flatMap fun e => [e.1, e.2]
  | drawing _ table => table.flatMap Machine.Row.values

end Writing

section

variable {ρ} {refs refs' : RefText}

/-- A trace is the same text if the values in it are written alike. -/
theorem traceText_rename {history : List (Value × Value)}
    (h : ∀ e ∈ history, refs.SameFor refs' ρ [e.1, e.2]) :
    traceText refs' (history.map (Value.renamePair ρ)) = traceText refs history := by
  rw [traceText, List.map_map, traceText]
  refine congrArg String.join (List.map_congr_left fun e he => ?_)
  show "State: " ++ (e.1.rename ρ).plain refs' ++ "\n" ++ (e.2.rename ρ).layout refs' ++ "\n\n" = _
  rw [Value.plain_rename (h e he _ List.mem_cons_self),
    Value.layout_rename (h e he _ (List.mem_cons_of_mem _ List.mem_cons_self))]
  rfl

/-- A drawing shows the names of states and of targets, so it is the same if these are written
alike. Labels are texts already. -/
theorem Digraph.ofTable_rename {table : List Machine.Row}
    (h : ∀ row ∈ table, refs.SameFor refs' ρ row.values) (style : Digraph.Style) :
    ofTable refs' style (table.map (Machine.Row.rename ρ)) = ofTable refs style table := by
  have hName (row : Machine.Row) (hRow : row ∈ table) :
      (row.name.rename ρ).plain refs' = row.name.plain refs :=
    Value.plain_rename (h row hRow _ List.mem_cons_self)
  have hNames : (table.map (Machine.Row.rename ρ)).map (fun row => row.name.plain refs') =
      table.map fun row => row.name.plain refs := by
    rw [List.map_map]
    exact List.map_congr_left hName
  have hEdges (row : Machine.Row) (hRow : row ∈ table) :
      edgeStatements refs' (row.rename ρ) = edgeStatements refs row := by
    rw [edgeStatements, Machine.Row.rename, List.map_map, edgeStatements]
    refine List.map_congr_left fun (target, label) hRule => ?_
    have hTarget : (target.rename ρ).plain refs' = target.plain refs :=
      Value.plain_rename (h row hRow _ (List.mem_cons_of_mem _ (List.mem_map_of_mem hRule)))
    simp only [Function.comp, hName row hRow, hTarget]
  have hAll : (table.map (Machine.Row.rename ρ)).flatMap (edgeStatements refs') =
      table.flatMap (edgeStatements refs) := by
    rw [List.flatMap_map]
    exact congrArg List.flatten (List.map_congr_left hEdges)
  simp only [ofTable, hNames, hAll]

/-- **What is written out is written alike.** -/
theorem Writing.text_rename {x : Writing} (h : refs.SameFor refs' ρ x.values) :
    (x.rename ρ).text refs' = x.text refs := by
  -- each kind of text has its values one by one among those that have to be written alike
  cases x with
  | literal v =>
    show (v.rename ρ).literal refs' = v.literal refs
    exact Value.literal_rename (h v List.mem_cons_self)
  | options o =>
    have hDone := Value.literal_rename (h o.done List.mem_cons_self)
    have hSwitch (b : Bool) : (Value.bool b).literal refs' = (Value.bool b).literal refs := rfl
    rw [rename, text, text]
    delta Options.text
    simp only [Options.rename, hSwitch, hDone]
  | trace history =>
    show traceText refs' (history.map (Value.renamePair ρ)) = traceText refs history
    exact traceText_rename fun e he v hv => h v (List.mem_flatMap.mpr ⟨e, he, hv⟩)
  | drawing style table =>
    have hRows : ∀ row ∈ table, refs.SameFor refs' ρ row.values :=
      fun row hRow v hv => h v (List.mem_flatMap.mpr ⟨row, hRow, hv⟩)
    show (Digraph.ofTable refs' style (table.map (Machine.Row.rename ρ))).source = _
    rw [Digraph.ofTable_rename hRows]
    rfl

end

end RuleMachine
