import RuleMachine.Proofs.Sources
import RuleMachine.Proofs.Turns

/-!
# What a stepper enters

A stepper of a machine enters one state at a time and says which. As long as the functions that it
calls leave the machine alone, the states that it says are those that it appended to the stack, in
order, and the latest is current. The functions may do anything to other machines, write to slots,
change the notes, and make the machine done or strict; they only may not enter states of it or reset
it.

* `Config.CallsSpare`: the functions that a program calls leave a machine where it is.
* `Run.Enters`: which states a program enters, as long as that is so.
* `Run.Enters.switch`, `Run.Enters.takeSteps`: what it says about the operations of a machine.
* `Config.run_iterates`: what runs and steppers do, from every moment of every execution.
-/

namespace RuleMachine

-- ---------------------------------------------------------------------------
-- What a machine enters between two worlds
-- ---------------------------------------------------------------------------

/-- What a machine entered on the way from one world to another, if it was not reset. -/
structure World.Entered (m : MachineRef) (states : List StateRef) (w w' : World) : Prop where
  /-- They were appended to the stack. -/
  stack : (w'.machine m).stack = (w.machine m).stack ++ states.map fun s => (w'.state s).name
  declared : ∀ s ∈ states, s.machine = m ∧ w'.declares s
  /-- The last of them is current. -/
  current : w'.current? m = states.getLast?.or (w.current? m)

namespace World

variable {m : MachineRef} {states more : List StateRef} {w w' w'' : World}

/-- Nothing was entered. -/
theorem Entered.of_same (hStack : (w'.machine m).stack = (w.machine m).stack)
    (hCurrent : (w'.machine m).current = (w.machine m).current) : Entered m [] w w' where
  stack := by rw [hStack, List.map_nil, List.append_nil]
  declared := by simp
  current := by
    rw [World.current?, hCurrent]
    rfl

/-- What is entered one after the other is entered altogether. -/
theorem Entered.trans (h : Entered m states w w') (h' : Entered m more w' w'')
    (hSame : w'.SameTables w'') : Entered m (states ++ more) w w'' where
  stack := by
    have hNames : (states.map fun s => (w'.state s).name) =
        states.map fun s => (w''.state s).name :=
      List.map_congr_left fun s hs => (hSame.name (h.declared s hs).2).symm
    rw [h'.stack, h.stack, hNames, List.map_append, List.append_assoc]
  declared s hs := by
    rcases List.mem_append.mp hs with hs | hs
    · exact ⟨(h.declared s hs).1, hSame.declares (h.declared s hs).2⟩
    · exact h'.declared s hs
  current := by
    rw [h'.current, h.current, List.getLast?_append, Option.or_assoc]

/-- Committing to a state enters it. -/
theorem Entered.commit {s : StateRef} (hs : w.declares s) :
    Entered s.machine [s] w (w.commit s) := by
  have hMachine : (w.commit s).machine s.machine = (w.machine s.machine).enter s.index := by
    rw [World.commit, if_pos hs]
    exact machine_modifyMachine_self _ (lt_of_declares hs)
  have hIndex := declares_iff.mp hs
  have hDeclared := Machine.declared_enter (w.machine s.machine) s.index
  -- the name that is pushed is the declared one
  have hName : ((w.commit s).state s).name = (w.state s).name := by
    rw [World.state, hMachine]
    exact Machine.nameOf_of_declared hDeclared s.index
  exact
    { stack := by
        rw [hMachine, Machine.stack_enter hIndex, List.map_singleton, hName]
        rfl
      declared := by
        intro t ht
        obtain rfl := List.mem_singleton.mp ht
        refine ⟨rfl, ?_⟩
        rw [declares_iff, hMachine, Machine.length_of_declared hDeclared]
        exact hIndex
      current := by
        rw [World.current?, hMachine, Machine.current_enter hIndex]
        rfl }

end World

/-- Whether a primitive operation moves a machine: it commits to a state of it or resets it. -/
def Primitive.moves {β : Type} (p : Primitive β) (m : MachineRef) : Bool :=
  match p with
  | .commit s => s.machine == m
  | .reset other => other == m
  | _ => false

/-- Whether a machine has the stack and the current state of another. -/
def Machine.Stands (m m' : Machine) : Prop := m'.stack = m.stack ∧ m'.current = m.current

namespace World

variable {w : World} {m : MachineRef}

/-- A change to another machine leaves this one standing where it is. -/
theorem stands_modifyMachine (w : World) (m ref : MachineRef) {f : Machine → Machine}
    (h : ref = m → (w.machine m).Stands (f (w.machine m))) :
    (w.machine m).Stands ((w.modifyMachine ref f).machine m) := by
  rw [machine_modifyMachine]
  split
  · rename_i hRef
    obtain ⟨rfl, -⟩ := hRef
    exact h rfl
  · exact ⟨rfl, rfl⟩

/-- An assignment moves no machine. -/
theorem stands_assign {w' : World} {s : StateRef} {slot : Slot} {v : Value}
    (h : w.assign s slot v = .ok w') : (w.machine m).Stands (w'.machine m) := by
  unfold World.assign at h
  split at h
  · cases h
  · obtain rfl := whileAlive_eq_ok h
    refine w.stands_modifyMachine m s.machine ?_
    rintro rfl
    refine ⟨Machine.stack_setSlot _ _ _ _, ?_⟩
    unfold Machine.setSlot
    split <;> rfl

/-- Neither does an assignment to a current state. -/
theorem stands_assignCurrent {w' : World} {ref : MachineRef} {slot : Slot} {v : Value}
    (h : w.assignCurrent ref slot v = .ok w') : (w.machine m).Stands (w'.machine m) := by
  unfold World.assignCurrent at h
  split at h
  · exact stands_assign h
  · cases h

/-- A change that may fail moves a machine only if it succeeds. -/
theorem stands_update {r : Except Cause World}
    (h : ∀ w', r = .ok w' → (w.machine m).Stands (w'.machine m)) :
    (w.machine m).Stands ((w.update r).2.machine m) := by
  cases r with
  | ok w' => exact h w' rfl
  | error cause => exact ⟨rfl, rfl⟩

/-- A machine that has just been built stands where one does that was never built. -/
theorem stands_construct (w : World) (table : Value) (m : MachineRef) :
    (w.machine m).Stands ((w.construct table).2.machine m) := by
  rcases hRead : (readTable w.machines.length table).result w.streams with ⟨cause | built, s'⟩
  · simp only [World.construct, hRead]
    exact ⟨rfl, rfl⟩
  · simp only [World.construct, hRead]
    show (w.machine m).Stands ((w.machines ++ [built])[m]?.getD default)
    rw [machine_concat]
    -- a machine that was just built stands nowhere, as a machine that is not there does
    split
    · obtain ⟨-, hUnused⟩ := readTable_fresh hRead
      rename_i hRef
      rw [machine_of_le (Nat.le_of_eq hRef.symm)]
      exact ⟨congrArg (List.map Visit.name) hUnused.history, hUnused.current⟩
    · exact ⟨rfl, rfl⟩

end World

/-- **What does not move a machine leaves it where it stands.** -/
theorem Primitive.stands {β : Type} {p : Primitive β} {m : MachineRef} (h : p.moves m = false)
    (w : World) : (w.machine m).Stands ((p.effect w).2.machine m) := by
  -- only an entry and a reset move a machine, and these are about another one
  cases p with
  | commit s =>
    show (w.machine m).Stands ((w.commit s).machine m)
    unfold World.commit
    split
    · exact w.stands_modifyMachine m s.machine fun hs => absurd hs (ne_of_beq_false h)
    · exact ⟨rfl, rfl⟩
  | reset other => exact w.stands_modifyMachine m other fun hs => absurd hs (ne_of_beq_false h)
  | assign s slot v => exact World.stands_update fun _ hAssign => World.stands_assign hAssign
  | assignCurrent other slot v =>
    exact World.stands_update fun _ hAssign => World.stands_assignCurrent hAssign
  | adjust other a =>
    refine w.stands_modifyMachine m other fun _ => ?_
    cases a <;> exact ⟨rfl, rfl⟩
  | construct table => exact w.stands_construct table m
  | keep b =>
    show (w.machine m).Stands ((b.apply w).machine m)
    rw [b.machine_apply]
    exact ⟨rfl, rfl⟩
  | _ => exact ⟨rfl, rfl⟩

-- ---------------------------------------------------------------------------
-- Functions that leave a machine alone
-- ---------------------------------------------------------------------------

/-- Whether an act of a program is a call, or leaves a machine where it stands. -/
def Act.Stays (m : MachineRef) : Act → Prop
  | .call _ _ => True
  | .perform p => p.moves m = false

namespace Config

variable {handler : Handler} {m : MachineRef} {α β : Type}

/-- Whether the next step moves a machine. -/
def moves (m : MachineRef) (c : Config α) : Bool :=
  match c.program with
  | .perform p _ => p.moves m
  | _ => false

/-- Whether none of the functions that a program calls itself moves a machine, nor what they call in
turn. -/
def CallsSpare (handler : Handler) (m : MachineRef) (c : Config α) : Prop :=
  ∀ ds c', c.Did handler ds c' → ∀ d ∈ ds, ∀ f args, d.act = .call f args →
    ∀ n, ((calling handler f args d.before).after .standard handler n).moves m = false

/-- What is never moved stands where it stood. -/
theorem stands_after {c : Config α} (h : ∀ n, (c.after .standard handler n).moves m = false)
    (n : Nat) : (c.world.machine m).Stands ((c.after .standard handler n).world.machine m) := by
  induction n with
  | zero => exact ⟨rfl, rfl⟩
  | succ n ih =>
    have hMoves := h n
    rw [after_succ]
    generalize c.after .standard handler n = c' at hMoves ih
    obtain ⟨p, w⟩ := c'
    cases p with
    | perform p next =>
      have hStep := p.stands hMoves w
      exact ⟨hStep.1.trans ih.1, hStep.2.trans ih.2⟩
    | ret _ | call _ _ _ | loop _ _ => exact ih

/-- Calls that spare a machine, and acts that leave it where it stands, leave it there together. -/
theorem Did.stands {c c' : Config α} {ds : List Deed} (h : c.Did handler ds c')
    (hSpare : c.CallsSpare handler m) (hStays : ∀ d ∈ ds, d.act.Stays m) :
    (c.world.machine m).Stands (c'.world.machine m) := by
  have hAll := hSpare ds c' h
  clear hSpare
  induction h with
  | refl c => exact ⟨rfl, rfl⟩
  | @perform _ p next w ds c' rest ih =>
    have hRest := ih (fun d hd => hStays d (List.mem_append_right _ hd))
      fun d hd => hAll d (List.mem_append_right _ hd)
    have hFirst : (w.machine m).Stands ((p.effect w).2.machine m) := by
      cases p with
      | look q => exact ⟨rfl, rfl⟩
      | _ => exact Primitive.stands (hStays _ (List.mem_append_left _ List.mem_cons_self)) w
    exact ⟨hRest.1.trans hFirst.1, hRest.2.trans hFirst.2⟩
  | @call f args next w w' r ds c' hCall rest ih =>
    have hRest := ih (fun d hd => hStays d (List.mem_cons_of_mem _ hd))
      fun d hd => hAll d (List.mem_cons_of_mem _ hd)
    obtain ⟨n, hn⟩ := hCall
    -- a function that is called spares the machine at each of its steps
    have hFirst := stands_after (hAll _ List.mem_cons_self f args rfl) n
    rw [hn] at hFirst
    exact ⟨hRest.1.trans hFirst.1, hRest.2.trans hFirst.2⟩
  | loop rest ih => exact ih hStays hAll

/-- What a program's calls spare, those of its first part spare. -/
theorem CallsSpare.of_andThen {c : Config β} {k : β → Program α}
    (h : (c.andThen k).CallsSpare handler m) : c.CallsSpare handler m :=
  fun ds _ hDid => h ds _ (hDid.andThen k)

/-- And so do those of what follows it. -/
theorem CallsSpare.of_leads {c : Config β} {k : β → Program α} {b : β} {w : World}
    (h : (c.andThen k).CallsSpare handler m) (hEnds : c.Ends handler b w) :
    ({ program := k b, world := w } : Config α).CallsSpare handler m := by
  obtain ⟨before, hBefore⟩ := hEnds.completes
  intro ds c' hDid d hd
  exact h _ c' ((hBefore.andThen k).trans hDid) d (List.mem_append_right _ hd)

theorem CallsSpare.of_bind {x : Run β} {f : β → Run α} {w : World}
    (h : (begin (x >>= f) w).CallsSpare handler m) : (begin x w).CallsSpare handler m := by
  rw [begin, Run.run_bind] at h
  exact CallsSpare.of_andThen (c := begin x w) h

/-- And so do those of the rest. -/
theorem CallsSpare.bind_rest {x : Run β} {f : β → Run α} {b : β} {w w₁ : World}
    (h : (begin (x >>= f) w).CallsSpare handler m) (hEnds : (begin x w).Ends handler (.ok b) w₁) :
    (begin (f b) w₁).CallsSpare handler m := by
  rw [begin, Run.run_bind] at h
  exact CallsSpare.of_leads (c := begin x w) h hEnds

end Config

-- ---------------------------------------------------------------------------
-- What programs enter
-- ---------------------------------------------------------------------------

/-- Whether a program that ends without failure has entered states of a machine that fit what it
answers, as long as the functions it calls spare the machine. -/
def Run.Enters (handler : Handler) (m : MachineRef) (w : World) {α : Type}
    (Q : α → List StateRef → Prop) (x : Run α) : Prop :=
  (Config.begin x w).CallsSpare handler m → ∀ a w', (Config.begin x w).Ends handler (.ok a) w' →
    ∃ states, World.Entered m states w w' ∧ Q a states

namespace Run.Enters

variable {handler : Handler} {m : MachineRef} {w : World} {α β : Type}
  {P : α → List StateRef → Prop} {Q : β → List StateRef → Prop}

/-- A value enters no state. -/
theorem pure {a : α} (h : P a []) : Enters handler m w P (Pure.pure a : Run α) := by
  intro hSpare b w' hEnds
  obtain ⟨hb, rfl⟩ := hEnds.unique (.refl _)
  cases hb
  exact ⟨[], .of_same rfl rfl, h⟩

/-- What comes second happens in a world that the first program ends in, and enters the rest. -/
theorem bind {x : Run α} {f : α → Run β} (hx : Enters handler m w P x)
    (hf : ∀ a v states, (Config.begin x w).Ends handler (.ok a) v → P a states →
      Enters handler m v (fun b more => Q b (states ++ more)) (f a)) :
    Enters handler m w Q (x >>= f) := by
  intro hSpare b w' hEnds
  obtain ⟨a, v, hFirst, hRest⟩ := hEnds.of_bind
  obtain ⟨states, hStates, hP⟩ := hx hSpare.of_bind a v hFirst
  obtain ⟨more, hMore, hQ⟩ := hf a v states hFirst hP (hSpare.bind_rest hFirst) b w' hRest
  exact ⟨states ++ more, hStates.trans hMore hRest.sameTables, hQ⟩

/-- What does not move the machine itself enters nothing. -/
theorem of_doesOnly {x : Run α} (h : x.DoesOnly (Act.Stays m)) :
    Enters handler m w (fun _ states => states = []) x := by
  intro hSpare a w' hEnds
  obtain ⟨ds, hDid⟩ := hEnds.completes
  obtain ⟨hStack, hCurrent⟩ := Config.Did.stands hDid hSpare (hDid.doesOnly h)
  exact ⟨[], .of_same hStack hCurrent, rfl⟩

/-- What follows something that does not move the machine itself. -/
theorem after {x : Run α} {f : α → Run β} (hx : x.DoesOnly (Act.Stays m))
    (hf : ∀ a v, (Config.begin x w).Ends handler (.ok a) v → Enters handler m v Q (f a)) :
    Enters handler m w Q (x >>= f) := by
  refine (of_doesOnly hx).bind fun a v states hEnds hStates => ?_
  subst hStates
  exact hf a v hEnds

/-- What follows a look. -/
theorem look {q : Query α} {a : α} {f : α → Run β} (hAnswer : q.answer w = .ok a)
    (h : Enters handler m w Q (f a)) : Enters handler m w Q (Run.look q >>= f) := by
  refine after (doesOnly_look q) fun b v hEnds => ?_
  have hEffect := hEnds.of_act
  rw [Primitive.effect, hAnswer] at hEffect
  cases hEffect
  exact h

/-- An act that commits to a state of the machine enters that state. -/
theorem commit {target : StateRef} (hTarget : w.declares target) (hMachine : target.machine = m) :
    Enters handler m w (fun _ states => states = [target]) (Run.act (.commit target)) := by
  intro _ a w' hEnds
  obtain rfl : w.commit target = w' := (Prod.ext_iff.mp hEnds.of_act).2
  subst hMachine
  exact ⟨[target], .commit hTarget, rfl⟩

/-- **Entering a state enters that state and no other.** -/
theorem enter {target : StateRef} (hTarget : w.declares target) (hMachine : target.machine = m)
    (actions : List FunctionName) :
    Enters handler m w (fun s states => s = target ∧ states = [target])
      (Run.enter target actions) := by
  refine after (doesOnly_look _) fun source w₁ h₁ => ?_
  refine after (leave_doesOnly (fun _ _ => trivial) source) fun _ w₂ h₂ => ?_
  refine after (runActions_doesOnly (fun _ _ => trivial) actions _) fun _ w₃ h₃ => ?_
  have hDeclares : w₃.declares target :=
    h₃.sameTables.declares (h₂.sameTables.declares (h₁.sameTables.declares hTarget))
  -- before the commitment and after it only functions are called
  refine (commit hDeclares hMachine).bind fun _ w₄ states _ hStates => ?_
  subst hStates
  refine after (runSlot_doesOnly (fun _ _ => trivial) target .onEnter) fun _ w₅ _ => ?_
  refine after (runSlot_doesOnly (fun _ _ => trivial) target .body) fun _ w₆ _ => ?_
  exact pure ⟨rfl, rfl⟩

/-- Entering a state, and answering with it. -/
theorem enter_some {target : StateRef} (hTarget : w.declares target) (hMachine : target.machine = m)
    (actions : List FunctionName) :
    Enters handler m w (fun r states => states = r.toList)
      (do return some (← Run.enter target actions)) := by
  refine (enter hTarget hMachine actions).bind fun s v states _ h => ?_
  obtain ⟨rfl, rfl⟩ := h
  exact pure rfl

/-- To start is to enter the state that it answers with, if there is one. -/
theorem start (m : MachineRef) (w : World) :
    Enters handler m w (fun r states => states = r.toList) (Run.start m) := by
  have hAnswer : (Query.states m).answer w =
      .ok ((List.range (w.machine m).states.length).map fun index => ⟨m, index⟩) := rfl
  refine look hAnswer ?_
  cases hLength : (w.machine m).states.length with
  | zero => exact pure rfl
  | succ k =>
    simp only [List.range_succ_eq_map, List.map_cons]
    refine enter_some ?_ rfl []
    rw [World.declares_iff, hLength]
    exact Nat.zero_lt_succ k

theorem of_error {x : Run β} {fault : Fault} {w₁ : World}
    (h : (Config.begin x w).Ends handler (.error fault) w₁) : Enters handler m w Q x := by
  intro _ a w' hEnds
  cases (hEnds.unique h).1

theorem fail_bind (cause : Cause) (f : α → Run β) :
    Enters handler m w Q (Run.fail cause >>= f) :=
  of_error (Config.Ends.bind_error (x := Run.fail cause) (.of_next rfl) f)

/-- What follows the outcome of a program, if it goes on only after an answer. -/
theorem outcome {x : Run α} {f : Except Fault α → Run β} (hx : Enters handler m w P x)
    (hOk : ∀ a v states, (Config.begin x w).Ends handler (.ok a) v → P a states →
      Enters handler m v (fun b more => Q b (states ++ more)) (f (.ok a)))
    (hError : ∀ fault v b w', ¬ (Config.begin (f (.error fault)) v).Ends handler (.ok b) w') :
    Enters handler m w Q (Run.outcome x >>= f) := by
  intro hSpare b w' hEnds
  rw [Config.begin, run_outcome_bind] at hSpare hEnds
  obtain ⟨r, v, hFirst, hRest⟩ := Config.Ends.of_andThen (c := Config.begin x w) hEnds
  have hSpareFirst := Config.CallsSpare.of_andThen (c := Config.begin x w) hSpare
  have hSpareRest := Config.CallsSpare.of_leads (c := Config.begin x w) hSpare hFirst
  -- what fails here does not end with a value, so it enters nothing
  cases r with
  | error fault => exact absurd hRest (hError fault v b w')
  | ok a =>
    obtain ⟨states, hStates, hP⟩ := hx hSpareFirst a v hFirst
    obtain ⟨more, hMore, hQ⟩ := hOk a v states hFirst hP hSpareRest b w' hRest
    exact ⟨states ++ more, hStates.trans hMore hRest.sameTables, hQ⟩

/-- Following a rule enters its target, and without a rule nothing is entered. -/
theorem follow (m : MachineRef) (s : StateRef) {chosen : Option Rule}
    (hTarget : ∀ rule ∈ chosen, w.declares rule.target ∧ rule.target.machine = m) :
    Enters handler m w (fun r states => states = r.toList) (Run.follow m s chosen) := by
  have hKeep (b : Bookkeeping) : (Run.keep b).DoesOnly (Act.Stays m) := doesOnly_act rfl
  cases chosen with
  | none => exact look rfl (after (hKeep _) fun _ v _ => pure rfl)
  | some rule =>
    obtain ⟨hDeclares, hMachine⟩ := hTarget rule rfl
    refine look rfl (look rfl (after (hKeep _) fun _ v hEnds => ?_))
    exact enter_some (hEnds.sameTables.declares hDeclares) hMachine rule.actions

/-- To ask whether a machine is done moves it nowhere but in the function that is called. -/
theorem done (m ref : MachineRef) : (Run.done ref).DoesOnly (Act.Stays m) := by
  refine (doesOnly_look _).bind fun predicate => ?_
  cases predicate with
  | function f => exact doesOnly_call trivial
  | constant v => exact doesOnly_pure v

section

variable (hConsistent : ∀ ref, (w.machine ref).Consistent ref)
include hConsistent

/-- **An attempt to switch enters the state that it answers with, if any.** -/
theorem trySwitch (inputs : List Value) :
    Enters handler m w (fun r states => states = r.toList) (Run.trySwitch m inputs) := by
  rw [trySwitch_eq]
  cases hCurrent : w.current? m with
  | none =>
    have hAnswer : (Query.current m).answer w = .ok none := by rw [Query.answer, hCurrent]
    simp only [currentState, bind_assoc]
    refine look hAnswer ?_
    exact fail_bind _ _
  | some s =>
    have hAnswer : (Query.current m).answer w = .ok (some s) := by rw [Query.answer, hCurrent]
    simp only [currentState, bind_assoc]
    refine look hAnswer (look rfl (look rfl ?_))
    have hChoice : (w.choice m s inputs).DoesOnly (Act.Stays m) :=
      choose_doesOnly (fun a ha => by cases ha; trivial) fun _ _ => rfl
    refine after hChoice fun chosen w₁ hChosen => follow m s fun rule hRule => ?_
    -- the rule that is followed is one of the current state's, so its target is declared
    obtain ⟨rfl, hs⟩ := (hConsistent m).declares_current hCurrent
    have hMem := (Run.choose_answers _ _ _ inputs).after hChosen rule hRule
    obtain ⟨hMachine, hTarget⟩ := (hConsistent s.machine).declares_target hs hMem
    exact ⟨hChosen.sameTables.declares hTarget, hMachine⟩

/-- **A switch enters the state that it answers with.** -/
theorem switch (inputs : List Value) :
    Enters handler m w (fun s states => states = [s]) (Run.switch m inputs) := by
  rw [switch_eq]
  refine (trySwitch hConsistent inputs).bind fun r v states _ hStates => ?_
  subst hStates
  cases r with
  | some s => exact pure rfl
  | none => exact of_error (Config.ends_insist_none m v)

/-- **A step enters the state that it answers with, if any.** -/
theorem nextStep (inputs : List Value) :
    Enters handler m w (fun r states => states = r.toList) (Run.nextStep m inputs) := by
  refine after (done m m) fun answer v hEnds => ?_
  split
  · exact pure rfl
  · refine (switch (hEnds.consistent hConsistent) inputs).bind fun s _ states _ hStates => ?_
    subst hStates
    exact pure rfl

/-- A first step enters the state that it yields. -/
theorem firstStep (inputs : List Value) :
    Enters handler m w (fun r states => states = r.toList) (Run.firstStep m inputs) := by
  have hAnswer : (Query.current m).answer w = .ok (w.current? m) := rfl
  refine look hAnswer ?_
  split
  · exact nextStep hConsistent inputs
  · refine (start m w).bind fun r v states hEnds hStates => ?_
    subst hStates
    cases r with
    | some s => exact pure rfl
    | none => exact nextStep (hEnds.consistent hConsistent) inputs

/-- A step enters the state that it yields, whatever the phase. -/
theorem stepFrom (inputs : List Value) (phase : Stepper.Phase) :
    Enters handler m w (fun r states => states = r.toList) (Run.stepFrom m inputs phase) := by
  cases phase with
  | fresh => exact firstStep hConsistent inputs
  | running => exact nextStep hConsistent inputs
  | executing | finished => exact pure rfl

/-- **Steps taken one after the other enter the states that they answer with.** -/
theorem takeSteps (inputs : List Value) (phase : Stepper.Phase) (limit : Nat) :
    Enters handler m w (fun states entered => entered = states)
      (Run.takeSteps m inputs phase limit) := by
  induction limit generalizing phase w with
  | zero => exact pure rfl
  | succ limit ih =>
    refine (stepFrom hConsistent inputs phase).bind fun r v states hEnds hStates => ?_
    subst hStates
    -- a step that yields nothing is the last one
    cases r with
    | none => exact pure rfl
    | some s =>
      refine (ih (hEnds.consistent hConsistent) .running).bind fun others _ entered _ hEntered => ?_
      subst hEntered
      exact pure (by simp)

/-- **A kept stepper that is asked for a state enters the one that it answers with, if any.** -/
theorem advance {id : String} {s : Stepper} (hStepper : w.steppers.get? id = some s) :
    Enters handler s.machine w (fun r states => states = r.toList) (Run.advance id) := by
  have hAnswer : (Query.stepper id).answer w = .ok (some s) := congrArg Except.ok hStepper
  have hKeep (phase : Stepper.Phase) : (Run.keep (.setPhase id phase)).DoesOnly
      (Act.Stays s.machine) := doesOnly_act rfl
  -- the phase is set before the step and after it, which moves no machine
  have hEndStep (phase : Stepper.Phase) : (Run.endStep id phase).DoesOnly
      (Act.Stays s.machine) := by
    refine (doesOnly_look _).bind fun _ => ?_
    split
    · exact hKeep phase
    · exact doesOnly_pure ()
  simp only [Run.advance, Run.idleStepper, Run.stepper, bind_assoc]
  refine look hAnswer ?_
  simp only [Run.require, pure_bind]
  split
  · rw [bind_assoc]
    exact fail_bind _ _
  · simp only [pure_bind]
    refine after (hKeep .executing) fun _ v hEnds => ?_
    refine outcome (stepFrom (hEnds.consistent hConsistent) s.inputs s.phase) ?_ ?_
    · intro r v states _ hStates
      subst hStates
      exact after (hEndStep _) fun _ v' _ => pure (by simp)
    · intro fault v r w' hEnds
      obtain ⟨_, v', -, hRest⟩ := Config.Ends.of_bind (x := Run.endStep _ _) hEnds
      cases (hRest.unique (.refl _)).1

end

end Run.Enters

-- ---------------------------------------------------------------------------
-- Machines without states
-- ---------------------------------------------------------------------------

namespace Config

variable {handler : Handler} {m : MachineRef} {inputs : List Value} {w w₁ : World}

/-- A machine without states has no current one. -/
theorem current?_of_empty (hConsistent : (w.machine m).Consistent m)
    (hEmpty : (w.machine m).states = []) : w.current? m = none := by
  cases hCurrent : w.current? m with
  | none => rfl
  | some s =>
    obtain ⟨i, hi, -⟩ := Option.map_eq_some_iff.mp hCurrent
    obtain ⟨hIndex, -⟩ := hConsistent.current_last i hi
    rw [hEmpty] at hIndex
    exact absurd hIndex (Nat.not_lt_zero i)

/-- A machine that was not started has no state to switch from. -/
theorem ends_switch_notStarted (hCurrent : w.current? m = none) :
    (begin (Run.switch m inputs) w).Ends handler (.error (w.fault .notStarted)) w := by
  have hAnswer : (Query.current m).answer w = .ok none := by rw [Query.answer, hCurrent]
  simp only [Run.switch_eq, Run.trySwitch_eq, Run.currentState, bind_assoc]
  refine (leads_look hAnswer _).trans ?_
  exact Ends.bind_error (x := Run.fail .notStarted) (.of_next rfl) _

/-- **A run of a machine without states** ends at once if the machine is done, and otherwise reports
that it was not started. -/
theorem ends_run_of_empty (hConsistent : ∀ ref, (w.machine ref).Consistent ref)
    (hBuilt : m < w.machines.length) (hEmpty : (w.machine m).states = []) {a : Value}
    (hDone : (begin (Run.done m) w).Ends handler (.ok a) w₁) :
    (begin (Run.run m inputs) w).Ends handler
      (if a.truthy then .ok none else .error (w₁.fault .notStarted)) w₁ := by
  have hEmpty' : (w₁.machine m).states = [] := by
    have hLength := Machine.length_of_declared (Leads.declared_of_built hDone hBuilt)
    rw [hEmpty] at hLength
    exact List.eq_nil_of_length_eq_zero hLength
  have hCurrent := current?_of_empty (hConsistent m) hEmpty
  -- the condition may have been asked by a function, but no state has been declared since
  have hCurrent' := current?_of_empty (hDone.consistent hConsistent m) hEmpty'
  have hAnswer : (Query.current m).answer w = .ok none := by rw [Query.answer, hCurrent]
  have hStates : (Query.states m).answer w = .ok [] := by rw [Query.answer, hEmpty]; rfl
  rw [Run.run_eq, Run.firstStep, bind_assoc]
  refine (leads_look hAnswer _).trans ?_
  simp only [Option.isSome_none, Bool.false_eq_true, if_false, Run.start, bind_assoc]
  refine (leads_look hStates _).trans ?_
  simp only [pure_bind, Run.nextStep_bind]
  refine (hDone.bind _).trans ?_
  split
  · exact (completes_runOn_none.mpr ⟨rfl, by rw [hCurrent'], rfl⟩).ends
  · exact (ends_switch_notStarted hCurrent').bind_error _

end Config

-- ---------------------------------------------------------------------------
-- Runs and steppers
-- ---------------------------------------------------------------------------

open Config in
/-- What runs and steppers of a machine do that begin in a world. -/
structure World.Iterates (handler : Handler) (w : World) (m : MachineRef) (inputs : List Value) :
    Prop where
  /-- Asking whether the machine is done is one call of a function, or none if there is a constant
  instead. -/
  asks : ∀ v ds r w', (begin (Run.done m) v).Completes handler ds r w' ↔
    match (v.machine m).done with
    | .constant a => ds = [] ∧ r = .ok a ∧ w' = v
    | .function f => (calling handler f [.machine m] v).Ends handler r w' ∧
        ds = [{ act := .call f [.machine m], before := v, after := w', failure := failure? r }]
  /-- A run returns if it gets through its start and some number of full turns, and the machine then
  says that it is done. It does all this and nothing else, and answers with the state that is
  current by then. -/
  returns : ∀ ds s w', (begin (Run.run m inputs) w).Completes handler ds (.ok s) w' ↔
    ∃ k w₀ v starting before asking a, ds = starting ++ (before ++ asking) ∧
      Begins handler m w starting (.ok ()) w₀ ∧ Turns handler m inputs k w₀ before v ∧
      (begin (Run.done m) v).Completes handler asking (.ok a) w' ∧ a.truthy = true ∧
      s = w'.current? m
  /-- A run fails where its start fails, or after some number of full turns asking fails or the
  switch after it, and leaves the world as that failure does. -/
  fails : ∀ ds fault w', (begin (Run.run m inputs) w).Completes handler ds (.error fault) w' ↔
    Begins handler m w ds (.error fault) w' ∨
    ∃ k w₀ v starting before last, ds = starting ++ (before ++ last) ∧
      Begins handler m w starting (.ok ()) w₀ ∧ Turns handler m inputs k w₀ before v ∧
      LastTurn handler m inputs v last (.error fault) w'
  /-- There is one number of full turns before a last one. -/
  turns : ∀ w₀ k k' v v' before before' last last' r r' u u',
    Turns handler m inputs k w₀ before v → LastTurn handler m inputs v last r u →
      Turns handler m inputs k' w₀ before' v' → LastTurn handler m inputs v' last' r' u' → k = k'
  /-- Without states, a run ends after asking once. -/
  empty : m < w.machines.length → (w.machine m).states = [] →
    ∀ a w₁, (begin (Run.done m) w).Ends handler (.ok a) w₁ →
      (begin (Run.run m inputs) w).Ends handler
        (if a.truthy then .ok none else .error (w₁.fault .notStarted)) w₁
  /-- A stepper enters the states that it answers with. -/
  steps : ∀ phase limit, (begin (Run.takeSteps m inputs phase limit) w).CallsSpare handler m →
    ∀ states w', (begin (Run.takeSteps m inputs phase limit) w).Ends handler (.ok states) w' →
      w.Entered m states w'
  /-- So does one that is kept under a name, each time that it is asked. -/
  kept : ∀ id s, w.steppers.get? id = some s →
    (begin (Run.advance id) w).CallsSpare handler s.machine →
      ∀ r w', (begin (Run.advance id) w).Ends handler (.ok r) w' →
        w.Entered s.machine r.toList w'

namespace Config

/-- **A run is the least iteration, and a stepper says what it enters.** From every moment of every
execution and whatever functions do, a run begins by starting a machine that has no current state,
and then takes full turns until the machine is done or something fails; and a stepper whose
functions leave the machine alone appends to its stack the states that it answers with, in order,
the latest of which is current. -/
theorem run_iterates {α : Type} (handler : Handler) (p : Program α) (n : Nat) (m : MachineRef)
    (inputs : List Value) :
    ((start p).after .standard handler n).world.Iterates handler m inputs := by
  have hConsistent := consistent handler p n
  generalize ((start p).after .standard handler n).world = w at hConsistent ⊢
  exact
    { asks := fun v ds r w' => completes_done
      returns := by
        intro ds s w'
        rw [run_completes]
        constructor
        · -- a run that returns has begun, gone through its turns, and asked once more
          rintro (⟨fault, -, hFault⟩ |
            ⟨k, w₀, v, starting, before, last, rfl, hBegins, hTurns, hLast⟩)
          · cases hFault
          · cases hLast with
            | done hDone hTruthy =>
              exact ⟨k, w₀, v, starting, before, last, _, rfl, hBegins, hTurns, hDone, hTruthy, rfl⟩
        · rintro ⟨k, w₀, v, starting, before, asking, a, rfl, hBegins, hTurns, hDone, hTruthy, rfl⟩
          exact .inr ⟨k, w₀, v, starting, before, asking, rfl, hBegins, hTurns, .done hDone hTruthy⟩
      fails := by
        intro ds fault w'
        rw [run_completes]
        refine or_congr_left ⟨?_, fun hBegins => ⟨fault, hBegins, rfl⟩⟩
        rintro ⟨fault', hBegins, hFault⟩
        cases hFault
        exact hBegins
      turns := fun _ _ _ _ _ _ _ _ _ _ _ _ _ h hLast h' hLast' => h.unique hLast h' hLast'
      empty := fun hBuilt hEmpty a w₁ hDone => ends_run_of_empty hConsistent hBuilt hEmpty hDone
      steps := by
        intro phase limit hSpare states w' hEnds
        obtain ⟨entered, hEntered, rfl⟩ :=
          Run.Enters.takeSteps hConsistent inputs phase limit hSpare states w' hEnds
        exact hEntered
      kept := by
        intro id s hStepper hSpare r w' hEnds
        obtain ⟨entered, hEntered, rfl⟩ :=
          Run.Enters.advance hConsistent hStepper hSpare r w' hEnds
        exact hEntered }

/-- The function that says when the pendulum is done only looks. -/
theorem counting_spares {α : Type} (c : Config α) (m : MachineRef) : c.CallsSpare counting m := by
  intro ds c' _ d _ f args _ n
  cases n with
  | zero => rfl
  | succ n =>
    have hEnd : ((calling counting f args d.before).after .standard counting 1).answer?.isSome =
        true := rfl
    rw [after_of_ended hEnd (Nat.le_add_left 1 n)]
    rfl

/-- The pendulum swings until it is done, one state at a time or at one go, and a machine without
states is not started. -/
theorem run_iterates_pendulum :
    let left : StateRef := { machine := 0, index := 0 }
    let right : StateRef := { machine := 0, index := 1 }
    let w := ((start (ExceptT.run hangPendulum)).after .standard counting 5).world
    let w₀ := ((start (ExceptT.run (Run.build (.map []) none))).after .standard counting 2).world
    (∃ (k : Nat) (v₀ v w' : World) (before : List Deed), Begins counting 0 w before (.ok ()) v₀ ∧
      (∃ swings, Turns counting 0 [] k v₀ swings v) ∧ w'.current? 0 = some right) ∧
    (∃ w', w.Entered 0 [left, right] w') ∧
    ∃ w', (begin (Run.run 0 []) w₀).Ends counting (.error (w'.fault .notStarted)) w' := by
  intro left right w w₀
  have hRun : (begin (Run.run 0 []) w).Ends counting (.ok (some right)) _ :=
    .of_toOption (n := 56) (by decide +kernel)
  have hTaken : (begin (Run.takeSteps 0 [] .fresh 2) w).Ends counting (.ok [left, right]) _ :=
    .of_toOption (n := 20) (by decide +kernel)
  obtain ⟨ds, hDid⟩ := hRun.completes
  have hPendulum := run_iterates counting (ExceptT.run hangPendulum) 5 0 []
  obtain ⟨k, v₀, v, starting, before, asking, a, -, hBegins, hTurns, -, -, hCurrent⟩ :=
    (hPendulum.returns _ _ _).mp hDid
  have hDone : (begin (Run.done 0) w₀).Ends counting (.ok (.bool false)) _ :=
    .of_answer? (n := 3) rfl
  have hNone := (run_iterates counting (ExceptT.run (Run.build (.map []) none)) 2 0 []).empty
    (by decide) rfl _ _ hDone
  exact ⟨⟨k, v₀, v, _, starting, hBegins, ⟨before, hTurns⟩, hCurrent.symm⟩,
    ⟨_, hPendulum.steps .fresh 2 (counting_spares _ 0) _ _ hTaken⟩, _, hNone⟩

end Config

end RuleMachine
