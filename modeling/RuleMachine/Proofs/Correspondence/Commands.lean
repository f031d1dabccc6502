import RuleMachine.Proofs.Correspondence.Expressions
import RuleMachine.Script.Session

/-!
# Scripts correspond

A command is done alike with renamed values, and so is a whole script. Only commands about the mode
of a machine need more than what holds of everything that is put together: that programs may read
and set it.

* `Instruction.constants`, `Function.constants`: the constants in scripts.
* `Instruction.isAboutMode`: commands that read or set the mode.
* `Correspondence.Lawful.perform`: instructions.
* `Correspondence.Lawful.handler`: the functions that scripts define.
-/

namespace RuleMachine

-- ---------------------------------------------------------------------------
-- Constants
-- ---------------------------------------------------------------------------

/-- The constants of the options that a machine is built with. -/
def OptionExprs.constants (exprs : OptionExprs) : List Value :=
  Expr.constantsOptional exprs.start ++ Expr.constantsOptional exprs.done ++
    Expr.constantsOptional exprs.strict

/-- The constants in the operands of a command. -/
def FreeCommand.constants : FreeCommand → List Value
  | evaluate v | literal v | readActions v _ | trace v | inspect v _ | runSlot v _ => v.constants
  | fail _ _ | advance _ | close _ => []
  | options exprs assignment =>
    exprs.constants ++ Expr.constantsOptional (assignment.map Prod.snd)
  | runActions v args => v.constants ++ Expr.constantsAll args
  | readRulePairs source spec => source.constants ++ spec.constants
  | readRule source target spec checks =>
    source.constants ++ target.constants ++ spec.constants ++ checks.flatMap Expr.constantsAll
  | assign s _ v => s.constants ++ v.constants

/-- The constants of the operands of a command on a machine. -/
def MachineCommand.constants : MachineCommand → List Value
  | setState s | assignCurrent _ s | slots _ s | hold _ s | setStrict s | setDone s
  | eraseNote s => s.constants
  | trySwitch inputs | switch inputs | run inputs | steps inputs _ | openStepper _ inputs
  | states inputs => Expr.constantsAll inputs
  | latest _ s => Expr.constantsOptional s
  | setNote key v => key.constants ++ v.constants
  | start | reset | currentState | previousState | stack | rawHistory | trace | table | digraph _
  | literal | strict | done | notes => []

/-- The constants of a command, those of the table to build among them. -/
def Command.constants : Command → List Value
  | build table options => table.constants ++ options.elim [] OptionExprs.constants
  | drop => []
  | free command => command.constants
  | onMachine command => command.constants

/-- The constants of an instruction: of its guard and of its command. -/
def Instruction.constants (i : Instruction) : List Value :=
  Expr.constantsOptional i.guard ++ i.command.constants

/-- The constants of a function: of its body and of its result. -/
def Function.constants (f : Function) : List Value :=
  f.body.flatMap Instruction.constants ++ f.result.constants

-- ---------------------------------------------------------------------------
-- Commands about the mode
-- ---------------------------------------------------------------------------

/-- Whether a command is about the mode of a machine. -/
def MachineCommand.isAboutMode : MachineCommand → Bool
  | strict | setStrict _ => true
  | _ => false

/-- Whether an instruction reads or sets the mode of a machine as such. A switch reads it as well,
and is not meant. -/
def Instruction.isAboutMode (i : Instruction) : Bool :=
  match i.command with
  | .onMachine command => command.isAboutMode
  | _ => false

-- ---------------------------------------------------------------------------
-- Options and rows
-- ---------------------------------------------------------------------------

/-- Options are checked alike: a switch is a truth value or not under any numbers. -/
theorem Options.ofValues_rename (ρ : Renaming) (start done strict : Option Value) :
    ofValues (start.map (Value.rename ρ)) (done.map (Value.rename ρ))
        (strict.map (Value.rename ρ)) =
      mapOutcome (Cause.rename ρ) (Options.rename ρ) (ofValues start done strict) := by
  -- an option that is left out is false, and false has no number
  have hSwitch (option : Switch) (v : Option Value) :
      readSwitch option ((v.map (Value.rename ρ)).getD (.bool false)) =
        mapOutcome (Cause.rename ρ) id (readSwitch option (v.getD (.bool false))) := by
    rcases v with _ | v
    · rfl
    · cases v <;> rfl
  have hDone : (done.map (Value.rename ρ)).getD (.bool false) =
      (done.getD (.bool false)).rename ρ := by
    cases done <;> rfl
  rw [ofValues, hSwitch, hSwitch, hDone, ofValues]
  cases readSwitch .start (start.getD (.bool false)) with
  | error cause => rfl
  | ok b => cases readSwitch .strict (strict.getD (.bool false)) <;> rfl

/-- The `done` option is taken as it is given. It is not checked. -/
theorem Options.done_ofValues {start done strict : Option Value} {o : Options}
    (h : ofValues start done strict = .ok o) : o.done = done.getD (.bool false) := by
  unfold ofValues at h
  cases hStart : readSwitch .start (start.getD (.bool false)) with
  | error cause => rw [hStart] at h; cases h
  | ok b =>
    cases hStrict : readSwitch .strict (strict.getD (.bool false)) with
    | error cause => rw [hStart, hStrict] at h; cases h
    | ok b' => rw [hStart, hStrict] at h; cases h; rfl

/-- The values that are shown of a history are in it. -/
theorem Writing.within_trace {known : Value → Prop} {history : List (Value × Value)}
    (h : Entries.Both (Value.Within known) history) :
    ∀ v ∈ (Writing.trace history).values, v.Within known := by
  intro v hv
  obtain ⟨e, he, hPart⟩ := List.mem_flatMap.mp hv
  rcases List.mem_pair.mp hPart with rfl | rfl
  · exact (h e he).1
  · exact (h e he).2

/-- A drawing shows nothing but names of states. -/
theorem Writing.within_drawing {known : Value → Prop} {table : List Machine.Row}
    (h : ∀ row ∈ table, row.Within known) (style : Digraph.Style) :
    ∀ v ∈ (Writing.drawing style table).values, v.Within known := by
  intro v hv
  obtain ⟨row, hRow, hPart⟩ := List.mem_flatMap.mp hv
  exact h row hRow v hPart

/-- What is shown of a machine's history is in it. -/
theorem Value.within_rawPairs {known : Value → Prop} {history : List Visit}
    (h : ∀ visit ∈ history, visit.Within known) :
    Entries.Both (Value.Within known) (rawPairs history) := by
  intro e he
  obtain ⟨visit, hVisit, rfl⟩ := List.mem_map.mp he
  exact ⟨(h visit hVisit).name, (h visit hVisit).slots⟩

namespace Correspondence

variable {R : Correspondence}

namespace Lawful

variable (hR : R.Lawful)
include hR

-- ---------------------------------------------------------------------------
-- Answers
-- ---------------------------------------------------------------------------

section

variable {α : Type} {c : Contents α} {x x' : Run α}

/-- Answers that are made of what a program gives. -/
theorem answering (hx : R.Holds c x x') {reply reply' : α → Reply}
    (h : ∀ a, reply' (c.rename R.ρ a) = (reply a).rename R.ρ) :
    R.Holds .reply (do return reply (← x)) (do return reply' (← x')) :=
  hR.bind hx fun a _ => hR.pure_of_eq trivial (h a)

/-- A command that has no answer but that it has ended. -/
theorem answeringNothing (hx : R.Holds c x x') :
    R.Holds .reply (do let _ ← x; return Run.noAnswer) (do let _ ← x'; return Run.noAnswer) :=
  hR.bind hx fun _ _ => hR.pure trivial

end

/-- An answer that is a state, or null where there is none. -/
theorem answeringState {x x' : Run (Option StateRef)} (hx : R.Holds (.option .state) x x') :
    R.Holds .reply (do return Run.stateAnswer (← x)) (do return Run.stateAnswer (← x')) :=
  hR.answering hx fun s => congrArg Reply.value (Value.optionalState_rename R.ρ s).symm

/-- An answer that is a list of states. -/
theorem answeringStates {x x' : Run (List StateRef)} (hx : R.Holds (.list .state) x x') :
    R.Holds .reply (do return Run.statesAnswer (← x)) (do return Run.statesAnswer (← x')) := by
  refine hR.answering hx fun states => congrArg Reply.value ?_
  show Value.list ((states.map (StateRef.rename R.ρ)).map Value.state) = _
  rw [Value.rename_list, List.map_map, List.map_map]
  rfl

/-- An answer that is a list of values. -/
theorem answeringList {x x' : Run (List Value)} (hx : R.Holds (.list .value) x x') :
    R.Holds .reply (do return .value (.list (← x))) (do return .value (.list (← x'))) :=
  hR.answering hx fun vs => congrArg Reply.value (Value.rename_list R.ρ vs).symm

/-- Functions have no numbers. -/
theorem answeringFunctions {x x' : Run (List FunctionName)} (hx : R.Holds .plain x x') :
    R.Holds .reply (do return .value (.tuple ((← x).map Value.function)))
      (do return .value (.tuple ((← x').map Value.function))) := by
  refine hR.answering hx fun functions => congrArg Reply.value ?_
  rw [Value.rename_tuple, List.map_map]
  rfl

/-- Texts are written alike of what is known. -/
theorem writing {x : Writing} (h : ∀ v ∈ x.values, v.Within R.known) :
    R.Holds .reply (do return .value (.text (← Run.look (.write x))))
      (do return .value (.text (← Run.look (.write (x.rename R.ρ))))) :=
  hR.answering (hR.look (q := .write x) h rfl) fun _ => rfl

/-- What is read of actions mentions nothing. -/
theorem readingActions (place : ActionPlace) (v : Value) :
    R.Holds .plain (Run.reading (readActionsAt place v))
      (Run.reading (readActionsAt (place.rename R.ρ) (v.rename R.ρ))) :=
  hR.reading (readActionsAt_alike R.ρ place v).on (readActionsAt_takes place v)
    ((readActionsAt_takes place v).drains fun _ => trivial)

/-- The pairs of a history that is given as a value. -/
theorem historyPairs {history : Value} (h : history.Within R.known) :
    R.Holds .entries (Run.historyPairs history) (Run.historyPairs (history.rename R.ρ)) :=
  hR.reading (readPairs_alike (f := Cause.rename R.ρ) history rfl fun _ _ => rfl).on
    (readPairs_takes _ _ _) (readPairs_drains h _ _)

/-- Whatever is asked about a state. -/
theorem inspect {s : StateRef} (hs : R.known (.state s)) (what : StateAttribute) :
    R.Holds .reply (Run.inspect s what) (Run.inspect (s.rename R.ρ) what) := by
  cases what with
  | name => exact hR.answering (hR.look (q := .name s) hs rfl) fun _ => rfl
  | visits => exact hR.answering (hR.look (q := .visitCount s) hs rfl) fun _ => rfl
  | latest slot => exact hR.answering (hR.look (q := .latest s slot) hs rfl) fun _ => rfl
  | slots slot => exact hR.answeringList (hR.look (q := .slots s slot) hs rfl)
  | machine =>
    refine hR.answering (hR.look (q := .alive s.machine) ((hR.home s).mp hs) rfl) fun alive => ?_
    cases alive <;> rfl
  | actions slot => exact hR.answeringFunctions (hR.look (q := .actions s slot) hs rfl)
  | rules => exact hR.answering (hR.look (q := .rules s) hs rfl) fun _ => rfl

-- ---------------------------------------------------------------------------
-- Commands without a machine
-- ---------------------------------------------------------------------------

section

variable {f : Frame} (hf : f.Within R.known)
include hf

/-- Options are evaluated first and checked afterwards. -/
theorem evalOptions (exprs : OptionExprs) (h : ∀ v ∈ exprs.constants, v.Fixed R.ρ R.known) :
    R.Holds .options (Run.evalOptions f exprs) (Run.evalOptions (f.rename R.ρ) exprs) := by
  obtain ⟨hFirst, hStrict⟩ := List.forall_mem_append.mp h
  obtain ⟨hStart, hDone⟩ := List.forall_mem_append.mp hFirst
  refine hR.bind (hR.evalOptional hf _ hStart) fun start _ => ?_
  refine hR.bind (hR.evalOptional hf _ hDone) fun done hKnown => ?_
  refine hR.bind (hR.evalOptional hf _ hStrict) fun strict _ => ?_
  -- the three values are checked together, with the renamed ones in the place of the others
  have hSame : Options.ofValues ((Contents.option .value).rename R.ρ start)
      ((Contents.option .value).rename R.ρ done) ((Contents.option .value).rename R.ρ strict) = _ :=
    Options.ofValues_rename R.ρ start done strict
  rw [hSame]
  cases hOptions : Options.ofValues start done strict with
  | error cause => exact hR.fail' cause
  | ok options =>
    refine hR.pure ?_
    show options.done.Within R.known
    rw [Options.done_ofValues hOptions]
    cases done with
    | some v => exact hKnown v rfl
    | none => exact Value.within_bool false

/-- A rule is tried on several lists of arguments. -/
theorem checkAll {rule : Rule} (hRule : rule.Within R.known) (checks : List (List Expr))
    (h : ∀ v ∈ checks.flatMap Expr.constantsAll, v.Fixed R.ρ R.known) :
    R.Holds (.list .value) (Run.checkAll f rule checks)
      (Run.checkAll (f.rename R.ρ) (rule.rename R.ρ) checks) := by
  induction checks with
  | nil => exact hR.pure (List.forall_mem_nil _)
  | cons args rest ih =>
    obtain ⟨hFirst, hRest⟩ := List.forall_mem_append.mp h
    refine hR.bind (hR.evalAll hf args hFirst) fun args hArgs => ?_
    refine hR.bind (hR.ask' hRule.predicate hArgs) fun outcome hOutcome => ?_
    exact hR.bind (ih hRest) fun others hOthers => hR.pure (within_cons hOutcome hOthers)

/-! Commands that read pieces of a definition. -/

/-- Actions are read from a value and called. -/
theorem performRunActions (v : Expr) (args : List Expr)
    (h : ∀ w ∈ (FreeCommand.runActions v args).constants, w.Fixed R.ρ R.known) :
    R.Holds .reply (Run.performFree f (.runActions v args))
      (Run.performFree (f.rename R.ρ) (.runActions v args)) := by
  obtain ⟨hActions, hArgs⟩ := List.forall_mem_append.mp h
  refine hR.bind (hR.eval hf v hActions) fun v _ => ?_
  refine hR.bind (hR.readingActions (.named "action list") v) fun functions _ => ?_
  refine hR.bind (hR.evalAll hf args hArgs) fun args hKnown => ?_
  exact hR.answeringNothing (hR.runActions hR.calls functions hKnown)

theorem performReadRulePairs (source spec : Expr)
    (h : ∀ v ∈ (FreeCommand.readRulePairs source spec).constants, v.Fixed R.ρ R.known) :
    R.Holds .reply (Run.performFree f (.readRulePairs source spec))
      (Run.performFree (f.rename R.ρ) (.readRulePairs source spec)) := by
  obtain ⟨hSource, hSpec⟩ := List.forall_mem_append.mp h
  refine hR.bind (hR.eval hf source hSource) fun source _ => ?_
  refine hR.bind (hR.eval hf spec hSpec) fun spec hKnown => ?_
  -- the specification may be a stream, which is drained alike
  have hPairs : R.Holds .entries (Run.reading (readRulePairs source spec))
      (Run.reading (readRulePairs (source.rename R.ρ) (spec.rename R.ρ))) :=
    hR.reading (readRulePairs_alike R.ρ source spec).on (readRulePairs_takes source spec)
      (readRulePairs_drains hKnown source)
  refine hR.answering hPairs fun pairs => congrArg Reply.value ?_
  show Value.list ((pairs.map (Value.renamePair R.ρ)).map _) = _
  rw [Value.rename_list, List.map_map, List.map_map]
  exact congrArg (fun tuples => Value.list (pairs.map tuples)) (funext fun e => rfl)

/-- A rule is read for a state and tried. -/
theorem performReadRule (source target spec : Expr) (checks : List (List Expr))
    (h : ∀ v ∈ (FreeCommand.readRule source target spec checks).constants, v.Fixed R.ρ R.known) :
    R.Holds .reply (Run.performFree f (.readRule source target spec checks))
      (Run.performFree (f.rename R.ρ) (.readRule source target spec checks)) := by
  obtain ⟨hRest, hChecks⟩ := List.forall_mem_append.mp h
  obtain ⟨hNames, hSpec⟩ := List.forall_mem_append.mp hRest
  obtain ⟨hSource, hTarget⟩ := List.forall_mem_append.mp hNames
  refine hR.bind (hR.eval hf source hSource) fun source _ => ?_
  refine hR.bind (hR.evalState hf target hTarget) fun target hKnown => ?_
  refine hR.bind (hR.eval hf spec hSpec) fun spec hWithin => ?_
  refine hR.bind (hR.look (q := .name target) hKnown rfl) fun targetName _ => ?_
  -- the target is moved by the renaming itself
  have hRule : R.Holds .rule (Run.reading (readRule source targetName target spec))
      (Run.reading (readRule (source.rename R.ρ) (targetName.rename R.ρ) (target.rename R.ρ)
        (spec.rename R.ρ))) :=
    hR.reading (readRule_alike R.ρ (StateRef.rename R.ρ) source targetName target spec).on
      (readRule_takes _ _ _ _) (readRule_drains hKnown hWithin _ _)
  refine hR.bind hRule fun rule hRule => ?_
  exact hR.answering (hR.checkAll hf hRule checks hChecks) fun _ => rfl

/-- Options are written out, or they refuse to be changed. -/
theorem performOptions (exprs : OptionExprs) (assignment : Option (String × Expr))
    (h : ∀ v ∈ (FreeCommand.options exprs assignment).constants, v.Fixed R.ρ R.known) :
    R.Holds .reply (Run.performFree f (.options exprs assignment))
      (Run.performFree (f.rename R.ρ) (.options exprs assignment)) := by
  obtain ⟨hOptions, hAssignment⟩ := List.forall_mem_append.mp h
  refine hR.bind (hR.evalOptions hf exprs hOptions) fun options hDone => ?_
  rcases assignment with _ | ⟨field, v⟩
  · refine hR.answering (hR.look (q := .write (.options options)) (within_one hDone) rfl)
      fun text => ?_
    exact congrArg Reply.value (options.toValue_rename R.ρ text)
  · exact hR.bind (hR.eval hf v hAssignment) fun _ _ => hR.fail' (.frozenOption field)

/-- A trace of a history that is given as a value. -/
theorem performTrace (history : Expr) (h : ∀ v ∈ history.constants, v.Fixed R.ρ R.known) :
    R.Holds .reply (Run.performFree f (.trace history))
      (Run.performFree (f.rename R.ρ) (.trace history)) := by
  refine hR.bind (hR.eval hf history h) fun history hHistory => ?_
  refine hR.bind (hR.historyPairs hHistory) fun pairs hPairs => ?_
  exact hR.writing (x := .trace pairs) (Writing.within_trace hPairs)

/-- **Commands without a machine correspond.** -/
theorem performFree (command : FreeCommand) (h : ∀ v ∈ command.constants, v.Fixed R.ρ R.known) :
    R.Holds .reply (Run.performFree f command) (Run.performFree (f.rename R.ρ) command) := by
  cases command with
  | evaluate v => exact hR.answering (hR.eval hf v h) fun _ => rfl
  | literal v =>
    exact hR.bind (hR.eval hf v h) fun v hv => hR.writing (x := .literal v) (within_one hv)
  | fail kind message => exact hR.fail' (.raised kind message)
  | options exprs assignment => exact hR.performOptions hf exprs assignment h
  | readActions v place =>
    exact hR.bind (hR.eval hf v h) fun v _ =>
      hR.answeringFunctions (hR.readingActions (.named place) v)
  | runActions v args => exact hR.performRunActions hf v args h
  | readRulePairs source spec => exact hR.performReadRulePairs hf source spec h
  | readRule source target spec checks => exact hR.performReadRule hf source target spec checks h
  | trace history => exact hR.performTrace hf history h
  | inspect s what => exact hR.bind (hR.evalState hf s h) fun _ hs => hR.inspect hs what
  | assign s slot v =>
    obtain ⟨hState, hValue⟩ := List.forall_mem_append.mp h
    refine hR.bind (hR.evalState hf s hState) fun s hs => ?_
    exact hR.bind (hR.eval hf v hValue) fun v hv =>
      hR.answeringNothing (hR.does (.assign s slot v) ⟨hs, hv⟩ rfl)
  | runSlot s slot =>
    exact hR.bind (hR.evalState hf s h) fun s hs =>
      hR.answeringNothing (hR.runSlot hR.calls hs slot)
  | advance id =>
    refine hR.bind (hR.advance id) fun s _ => ?_
    cases s <;> exact hR.pure trivial
  | close id => exact hR.answeringNothing (hR.close id)

-- ---------------------------------------------------------------------------
-- Commands on a machine
-- ---------------------------------------------------------------------------

section

variable {m : MachineRef} (hm : R.known (.machine m))
include hm

/-- The latest value of a slot, where the state may be left out. -/
theorem performLatest (slot : Slot) (s : Option Expr)
    (h : ∀ v ∈ Expr.constantsOptional s, v.Fixed R.ρ R.known) :
    R.Holds .reply (Run.performOn f m (.latest slot s))
      (Run.performOn (f.rename R.ρ) (R.ρ .machine m) (.latest slot s)) := by
  refine hR.bind (hR.evalOptional hf s h) fun s hs => ?_
  cases s with
  | some v => exact hR.answering (hR.latestOf hm slot (hs v rfl)) fun _ => rfl
  | none => exact hR.answering (hR.latestOf hm slot Value.within_null) fun _ => rfl

/-- All states of a machine, or those that are asked for. -/
theorem performStates (names : List Expr) (h : ∀ v ∈ Expr.constantsAll names, v.Fixed R.ρ R.known) :
    R.Holds .reply (Run.performOn f m (.states names))
      (Run.performOn (f.rename R.ρ) (R.ρ .machine m) (.states names)) := by
  cases names with
  | nil => exact hR.answeringStates (hR.look (q := .states m) hm rfl)
  | cons first rest =>
    exact hR.bind (hR.evalAll hf (first :: rest) h) fun _ hNames =>
      hR.answeringStates (hR.resolveAll hm hNames)

/-- A note that is not there cannot be erased. -/
theorem performEraseNote (key : Expr) (h : ∀ v ∈ key.constants, v.Fixed R.ρ R.known) :
    R.Holds .reply (Run.performOn f m (.eraseNote key))
      (Run.performOn (f.rename R.ρ) (R.ρ .machine m) (.eraseNote key)) := by
  refine hR.bind (hR.eval hf key h) fun key _ => hR.bind (hR.requireHashable key) fun _ _ => ?_
  refine hR.bind (hR.look (q := .notes m) hm rfl) fun notes _ => ?_
  refine hR.bind (hR.adjust hm (a := .eraseNote key) trivial rfl) fun _ _ =>
    hR.pure_of_eq trivial ?_
  refine congrArg Reply.value ?_
  show ((Entries.rename R.ρ notes).get? (key.rename R.ρ)).getD .null = _
  rw [Entries.get?_rename]
  cases notes.get? key <;> rfl

/-- A note is put under a key that can be one. -/
theorem performSetNote (key v : Expr)
    (h : ∀ w ∈ key.constants ++ v.constants, w.Fixed R.ρ R.known) :
    R.Holds .reply (Run.performOn f m (.setNote key v))
      (Run.performOn (f.rename R.ρ) (R.ρ .machine m) (.setNote key v)) := by
  obtain ⟨hKey, hValue⟩ := List.forall_mem_append.mp h
  refine hR.bind (hR.eval hf v hValue) fun v hv => hR.bind (hR.eval hf key hKey) fun key hk => ?_
  refine hR.bind (hR.requireHashable key) fun _ _ => ?_
  exact hR.answeringNothing (hR.adjust hm (a := .note key v) ⟨hk, hv⟩ rfl)

/-! Commands that ask about the machine. -/

omit hf in
theorem performRawHistory :
    R.Holds .reply (Run.performOn f m .rawHistory)
      (Run.performOn (f.rename R.ρ) (R.ρ .machine m) .rawHistory) := by
  refine hR.answering (hR.look (q := .history m) hm rfl) fun history => congrArg Reply.value ?_
  show Value.list ((history.map (Visit.rename R.ρ)).map Visit.toValue) = _
  rw [Value.rename_list, List.map_map, List.map_map]
  exact congrArg (Value.list <| history.map ·) (funext fun visit => visit.toValue_rename R.ρ)

omit hf in
/-- The stack is the names in the history. -/
theorem performStack :
    R.Holds .reply (Run.performOn f m .stack)
      (Run.performOn (f.rename R.ρ) (R.ρ .machine m) .stack) := by
  refine hR.answering (hR.look (q := .history m) hm rfl) fun history => congrArg Reply.value ?_
  show Value.list ((history.map (Visit.rename R.ρ)).map Visit.name) = _
  rw [Value.rename_list, List.map_map, List.map_map]
  rfl

omit hf in
/-- The static table, row by row. -/
theorem performTable :
    R.Holds .reply (Run.performOn f m .table)
      (Run.performOn (f.rename R.ρ) (R.ρ .machine m) .table) := by
  refine hR.answering (hR.look (q := .table m) hm rfl) fun table => congrArg Reply.value ?_
  show Value.list ((table.map (Machine.Row.rename R.ρ)).map Machine.Row.toValue) = _
  rw [Value.rename_list, List.map_map, List.map_map]
  exact congrArg (Value.list <| table.map ·) (funext fun row => row.toValue_rename R.ρ)

/-- **Commands on a machine correspond,** those about its mode only if the mode may be used. -/
theorem performOn (command : MachineCommand) (h : ∀ v ∈ command.constants, v.Fixed R.ρ R.known)
    (hMode : (∀ a, R.allows a) ∨ command.isAboutMode = false) :
    R.Holds .reply (Run.performOn f m command)
      (Run.performOn (f.rename R.ρ) (R.ρ .machine m) command) := by
  -- each command evaluates its operands from left to right and hands them to the engine
  cases command with
  | start => exact hR.answeringState (hR.start hm)
  | reset => exact hR.answeringNothing (hR.does (.reset m) hm rfl)
  | setState s =>
    refine hR.bind (hR.eval hf s h) fun v hv => ?_
    exact hR.answering (hR.setState hm hv) fun _ => rfl
  | trySwitch inputs =>
    exact hR.bind (hR.evalAll hf inputs h) fun _ hvs => hR.answeringState (hR.trySwitch hm hvs)
  | switch inputs =>
    exact hR.bind (hR.evalAll hf inputs h) fun _ hvs => hR.answering (hR.switch hm hvs) fun _ => rfl
  | run inputs =>
    exact hR.bind (hR.evalAll hf inputs h) fun _ hvs => hR.answeringState (hR.run hm hvs)
  | steps inputs limit =>
    exact hR.bind (hR.evalAll hf inputs h) fun _ hvs =>
      hR.answeringStates (hR.takeSteps hm hvs .fresh limit)
  | openStepper id inputs =>
    exact hR.bind (hR.evalAll hf inputs h) fun vs hvs =>
      hR.answeringNothing (hR.keep (b := .openStepper id m vs) ⟨hm, hvs⟩ rfl)
  | assignCurrent slot v =>
    exact hR.bind (hR.eval hf v h) fun v hv =>
      hR.answeringNothing (hR.does (.assignCurrent m slot v) ⟨hm, hv⟩ rfl)
  | latest slot s => exact hR.performLatest hf hm slot s h
  | slots slot s =>
    exact hR.bind (hR.eval hf s h) fun _ hv => hR.answeringList (hR.slotsOf hm slot hv)
  | hold name s =>
    refine hR.bind (hR.eval hf s h) fun v hv => hR.bind (hR.resolve hm hv) fun s hs => ?_
    exact hR.bind (hR.keep (b := .hold name s) hs rfl) fun _ _ => hR.pure trivial
  | states names => exact hR.performStates hf hm names h
  | currentState => exact hR.answeringState (hR.look (q := .current m) hm rfl)
  | previousState => exact hR.answeringState (hR.look (q := .previous m) hm rfl)
  | stack => exact hR.performStack hm
  | rawHistory => exact hR.performRawHistory hm
  | trace =>
    refine hR.bind (hR.look (q := .history m) hm rfl) fun history hHistory => ?_
    have hWrite := hR.writing (Writing.within_trace (Value.within_rawPairs hHistory))
    rw [Writing.rename, ← rawPairs_rename] at hWrite
    exact hWrite
  | table => exact hR.performTable hm
  | digraph style =>
    exact hR.bind (hR.look (q := .table m) hm rfl) fun table hTable =>
      hR.writing (x := .drawing style table) (Writing.within_drawing hTable style)
  | literal =>
    exact hR.writing (x := .literal (.machine m)) (within_one (Value.within_machine.mpr hm))
  -- these two are about the mode, so they correspond only where everything may be done
  | strict =>
    obtain hAll | hNone := hMode
    · exact hR.answering (hR.act (p := .look (.strict m)) rfl rfl (hAll _) hm) fun _ => rfl
    · cases hNone
  | setStrict v =>
    obtain hAll | hNone := hMode
    · refine hR.bind (hR.eval hf v h) fun v _ => ?_
      show R.Holds _ _ (do Run.setStrict _ (v.rename R.ρ).truthy; return Run.noAnswer)
      rw [Value.truthy_rename]
      exact hR.answeringNothing
        (hR.act (p := .adjust m (.strict v.truthy)) rfl rfl (hAll _) ⟨hm, trivial⟩)
    · cases hNone
  | done => exact hR.answering (hR.done hm) fun _ => rfl
  | setDone v => exact hR.bind (hR.eval hf v h) fun _ hv => hR.answeringNothing (hR.setDone hm hv)
  | notes =>
    refine hR.answering (hR.look (q := .notes m) hm rfl) fun notes => ?_
    exact congrArg Reply.value (Value.rename_map R.ρ notes).symm
  | setNote key v => exact hR.performSetNote hf hm key v h
  | eraseNote key => exact hR.performEraseNote hf hm key h

end

-- ---------------------------------------------------------------------------
-- Instructions
-- ---------------------------------------------------------------------------

/-- **Instructions correspond.** -/
theorem perform (i : Instruction) (h : ∀ v ∈ i.command.constants, v.Fixed R.ρ R.known)
    (hMode : (∀ a, R.allows a) ∨ i.isAboutMode = false) :
    R.Holds .reply (Run.perform f i) (Run.perform (f.rename R.ρ) i) := by
  obtain ⟨label, command, machine, guard, attempt⟩ := i
  cases command with
  | build table options =>
    obtain ⟨hTable, hOptions⟩ := List.forall_mem_append.mp h
    refine hR.bind (hR.eval hf table hTable) fun table hKnown => ?_
    -- options that are given have been evaluated before the machine is built
    have hBuild : ∀ options : Option Options, (∀ o ∈ options, o.done.Within R.known) →
        R.Holds .reply
          (do
            Run.keep (.bind (machine.getD defaultMachine) (← Run.build table options))
            return Run.noAnswer)
          (do
            Run.keep (.bind (machine.getD defaultMachine)
              (← Run.build (table.rename R.ρ) (options.map (Options.rename R.ρ))))
            return Run.noAnswer) :=
      fun options hDone => hR.bind (hR.build hKnown hDone) fun m hm =>
        hR.answeringNothing (hR.keep (b := .bind (machine.getD defaultMachine) m) hm rfl)
    cases options with
    | some exprs =>
      have hEval : R.Holds (.option .options) (some <$> Run.evalOptions f exprs)
          (some <$> Run.evalOptions (f.rename R.ρ) exprs) :=
        hR.map (hR.evalOptions hf exprs hOptions) fun o ho =>
          ⟨fun _ h => Option.some.inj h ▸ ho, rfl⟩
      exact hR.bind hEval hBuild
    | none => exact hBuild none fun _ h => by cases h
  | drop =>
    refine hR.bind (hR.look (q := .bound _) trivial rfl) fun m hm => ?_
    refine hR.bind (hR.require (c := .machine) (.unbound _) hm) fun _ _ => ?_
    exact hR.answeringNothing (hR.keep (b := .unbind (machine.getD defaultMachine)) trivial rfl)
  | free command => exact hR.performFree hf command h
  | onMachine command =>
    exact hR.bind (hR.machine hf machine) fun m hm =>
      hR.keeping hm (hR.performOn hf hm command h hMode)

/-- An instruction without a guard is performed. -/
theorem guardHolds (i : Instruction)
    (h : ∀ v ∈ Expr.constantsOptional i.guard, v.Fixed R.ρ R.known) :
    R.Holds .plain (Run.guardHolds f i) (Run.guardHolds (f.rename R.ρ) i) := by
  obtain ⟨label, command, machine, guard, attempt⟩ := i
  cases guard with
  | some condition =>
    exact hR.bind (hR.eval hf condition h) fun v _ =>
      hR.pure_of_eq trivial (Value.truthy_rename R.ρ v)
  | none => exact hR.pure trivial

/-- **Bodies of functions correspond.** -/
theorem performBody (body : List Instruction)
    (h : ∀ v ∈ body.flatMap Instruction.constants, v.Fixed R.ρ R.known)
    (hMode : (∀ a, R.allows a) ∨ ∀ i ∈ body, i.isAboutMode = false) :
    R.Holds .plain (Run.performBody f body) (Run.performBody (f.rename R.ρ) body) := by
  induction body with
  | nil => exact hR.pure trivial
  | cons i rest ih =>
    obtain ⟨hFirst, hRest⟩ := List.forall_mem_append.mp h
    obtain ⟨hGuard, hCommand⟩ := List.forall_mem_append.mp hFirst
    have hOthers := ih hRest (hMode.imp_right fun hNone j hj => hNone j (List.mem_cons_of_mem i hj))
    refine hR.bind (hR.guardHolds hf i hGuard) fun holds _ => ?_
    cases holds with
    | false => exact hOthers
    | true =>
      have hPerform :=
        hR.perform hf i hCommand (hMode.imp_right fun hNone => hNone i List.mem_cons_self)
      refine hR.bind (hR.outcome hPerform) fun result _ => ?_
      refine hR.bind (hR.keep (b := .performed i.label result) trivial rfl) fun _ _ => ?_
      cases result with
      | ok reply => exact hOthers
      -- a failure ends the body, unless the instruction was only an attempt
      | error fault =>
        show R.Holds .plain (if i.attempt then _ else _) (if i.attempt then _ else _)
        split
        · exact hOthers
        · exact hR.bind (d := .plain)
            (hR.ofOutcome (r := .error fault) fun _ h => by cases h) fun _ _ => hOthers

end

/-- **The functions that scripts define do alike things with renamed arguments,** if their constants
have no other numbers. -/
theorem handler {functions : Functions}
    (h : ∀ name, ∀ v ∈ (functions name).constants, v.Fixed R.ρ R.known)
    (hMode : (∀ a, R.allows a) ∨ ∀ name, ∀ i ∈ (functions name).body, i.isAboutMode = false)
    (name : FunctionName) {args : List Value} (hArgs : ∀ v ∈ args, v.Within R.known) :
    R.Holds .value (functions.handler name args)
      (functions.handler name (args.map (Value.rename R.ρ))) := by
  obtain ⟨hBody, hResult⟩ := List.forall_mem_append.mp (h name)
  have hf : (Frame.inFunction args).Within R.known := hArgs
  refine hR.bind (hR.performBody hf _ hBody (hMode.imp_right fun hNone => hNone name)) fun _ _ => ?_
  exact hR.eval hf _ hResult

end Lawful

end Correspondence

end RuleMachine
