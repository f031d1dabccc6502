import RuleMachine.Proofs.Chronicle
import RuleMachine.Proofs.Correspondence.Commands
import RuleMachine.Proofs.Detached
import RuleMachine.Proofs.Sessions
import RuleMachine.Proofs.Static

/-!
# The first machine of a session

Before a session builds its first machine there is nothing that a value could refer to: no machine
is bound, no state is held, and everything a script computes is detached. So the names of the states
of the first machine mention no machine, and each has one text, at any time and in any world. What
the log tells of this machine can be compared with where it stands now, whatever happened in
between, and also if the session goes on to build more machines.

* `Program.Harmless`: what a program does before the first machine is built.
* `Config.vacant_or_founded`: there is no machine, or the names of the first one are detached.
* `Session.log_tells_history`: the log tells the history of the first machine.
-/

namespace RuleMachine

-- ---------------------------------------------------------------------------
-- Before and after
-- ---------------------------------------------------------------------------

/-- A world without machines, and without anything that refers to one. -/
structure World.Vacant (w : World) : Prop where
  machines : w.machines = []
  within : w.Within fun _ => False

/-- A world in which a machine was built, and the names of the first one mention no machine. -/
structure World.Founded (w : World) : Prop where
  built : 0 < w.machines.length
  names : ∀ i < (w.machine 0).states.length, ((w.machine 0).nameOf i).detached = true

namespace World

theorem vacant_empty : empty.Vacant := ⟨rfl, within_empty⟩

theorem Vacant.emit {w : World} (h : w.Vacant) (event : Event) : (w.emit event).Vacant :=
  ⟨h.machines, h.within.emit event⟩

theorem Founded.emit {w : World} (h : w.Founded) (event : Event) : (w.emit event).Founded :=
  ⟨h.built, h.names⟩

/-- The first machine keeps the names that it has. -/
theorem Founded.effect {w : World} (h : w.Founded) {β : Type} (p : Primitive β) :
    (p.effect w).2.Founded := by
  have hDeclared := (p.move w 0).declared_of_built h.built
  refine ⟨Nat.lt_of_lt_of_le h.built (p.length_le w), fun i hi => ?_⟩
  rw [Machine.length_of_declared hDeclared] at hi
  rw [Machine.nameOf_of_declared hDeclared]
  exact h.names i hi

/-- Building a machine from a detached table founds the world, or fails. -/
theorem Vacant.construct {w : World} (h : w.Vacant) {table : Value}
    (hTable : table.Within fun _ => False) (hBuilt : (w.construct table).2.machines ≠ []) :
    (w.construct table).2.Founded := by
  have hNames := (readTable_drains_names hTable w.machines.length w.streams h.within.streams).2
  -- a table that is refused builds nothing, so there would still be no machine
  rcases hRead : (readTable w.machines.length table).result w.streams with ⟨cause | m, t⟩
  · simp only [World.construct, hRead] at hBuilt
    exact absurd h.machines hBuilt
  · rw [hRead] at hNames
    have hDetached : ∀ s ∈ m.states, s.name.detached = true := fun s hs =>
      Value.detached_of_within (hNames m rfl s hs)
    simp only [World.construct, hRead]
    refine Founded.emit ⟨?_, ?_⟩ _
    · show 0 < (w.machines ++ [m]).length
      simp
    · show ∀ i < ((w.machines ++ [m])[0]?.getD default).states.length,
        (((w.machines ++ [m])[0]?.getD default).nameOf i).detached = true
      rw [w.machine_concat, if_pos (by rw [h.machines]; rfl)]
      intro i hi
      rw [Machine.nameOf, Machine.state, List.getElem?_eq_getElem hi]
      exact hDetached _ (List.getElem_mem hi)

end World

namespace Primitive

variable {β : Type} {p : Primitive β} {w : World}

/-- Whatever is done without a machine leaves the world vacant if it builds none. -/
theorem vacant_effect (hw : w.Vacant) (hp : p.Within fun _ => False)
    (hNone : (p.effect w).2.machines = []) :
    (p.effect w).2.Vacant ∧
      ∀ a, (p.effect w).1 = .ok a → p.contents.Within (fun _ => False) a := by
  obtain ⟨hWithin, hAnswer⟩ := effect_within (fun _ => .rfl) hw.within hp fun hNew => by
    rw [hNone] at hNew
    exact Nat.not_lt_zero _ hNew
  exact ⟨⟨hNone, hWithin⟩, hAnswer⟩

/-- A primitive after which there is a machine has built it, from names that mention none. -/
theorem founded_effect (hw : w.Vacant) (hp : p.Within fun _ => False)
    (hBuilt : (p.effect w).2.machines ≠ []) : (p.effect w).2.Founded := by
  -- only the building of a machine makes the list longer
  cases hBuilds : p.builds with
  | true =>
    cases p with
    | construct table => exact hw.construct hp hBuilt
    | _ => cases hBuilds
  | false =>
    have hLength := p.length_effect hBuilds w
    rw [hw.machines] at hLength
    exact absurd (List.length_eq_zero_iff.mp hLength) hBuilt

end Primitive

-- ---------------------------------------------------------------------------
-- Programs before the first machine is built
-- ---------------------------------------------------------------------------

/-- Whether a program that begins without machines, calling functions with detached arguments, goes
on without machines until it builds the first one, and if it ends before that, gives an answer of
some kind. -/
inductive Program.Harmless : {α : Type} → (α → Prop) → Program α → Prop
  | ret {α : Type} {Q : α → Prop} {a : α} (h : Q a) : Harmless Q (.ret a)
  | perform {α β : Type} {Q : α → Prop} {p : Primitive β} {next : Except Fault β → Program α}
      (hBuilt : ∀ w : World, w.Vacant → (p.effect w).2.Vacant ∨ (p.effect w).2.Founded)
      (hNext : ∀ w : World, w.Vacant → (p.effect w).2.Vacant → Harmless Q (next (p.outcome w))) :
      Harmless Q (.perform p next)
  | call {α : Type} {Q : α → Prop} {f : FunctionName} {args : List Value}
      {next : Except Fault Value → Program α} (hArgs : ∀ v ∈ args, v.Within fun _ => False)
      (hNext : ∀ r, (∀ v, r = .ok v → v.Within fun _ => False) → Harmless Q (next r)) :
      Harmless Q (.call f args next)
  | loop {α β : Type} {Q : α → Prop} {P : β → Prop} {body : Program (Option β)}
      {next : β → Program α} (hBody : Harmless (fun r => ∀ b ∈ r, P b) body)
      (hNext : ∀ b, P b → Harmless Q (next b)) : Harmless Q (.loop body next)

namespace Program.Harmless

variable {α β : Type} {P : β → Prop} {Q : α → Prop}

/-- A harmless program goes on harmlessly with what it gave. -/
theorem bind {p : Program β} {k : β → Program α} (hp : p.Harmless P)
    (hk : ∀ b, P b → (k b).Harmless Q) : (p.bind k).Harmless Q := by
  induction hp with
  | ret h => exact hk _ h
  | perform hBuilt _ ih => exact .perform hBuilt fun w hw hVacant => ih w hw hVacant hk
  | call hArgs _ ih => exact .call hArgs fun r hr => ih r hr hk
  | loop hBody _ _ ih => exact .loop hBody fun b hb => ih b hb hk

/-- A loop with a harmless body takes its first round harmlessly. -/
theorem unroll {body : Program (Option β)} {next : β → Program α}
    (hBody : body.Harmless fun r => ∀ b ∈ r, P b) (hNext : ∀ b, P b → (next b).Harmless Q) :
    (Program.unroll body next).Harmless Q := by
  refine hBody.bind fun r hr => ?_
  cases r with
  | some b => exact hNext b (hr b rfl)
  | none => exact .loop hBody hNext

end Program.Harmless

/-- The same for a program that may fail: what it answers with is of some kind. -/
def Run.Harmless {α : Type} (Q : α → Prop) (x : Run α) : Prop :=
  (ExceptT.run x).Harmless fun r => ∀ a, r = .ok a → Q a

/-- Whether functions are harmless when they are called with detached arguments. -/
def Handler.Harmless (handler : Handler) : Prop :=
  ∀ f args, (∀ v ∈ args, v.Within fun _ => False) →
    (handler f args).Harmless fun v => v.Within fun _ => False

namespace Config

variable {handler : Handler} {α : Type}

/-- One step before the first machine is built, or the one that builds it. -/
theorem next_harmless (hHandler : handler.Harmless) {Q : α → Prop} {c c' : Config α}
    (hVacant : c.world.Vacant) (hProgram : c.program.Harmless Q)
    (hNext : c.next .standard handler = some c') :
    c'.world.Founded ∨ c'.world.Vacant ∧ c'.program.Harmless Q := by
  obtain ⟨program, w⟩ := c
  cases hProgram with
  | ret h => cases hNext
  | @perform _ _ _ p next hBuilt hRest =>
    obtain rfl := Option.some.inj hNext
    -- from the step that builds the first machine on nothing is asked of the program
    rcases hBuilt w hVacant with hStill | hFounded
    · exact .inr ⟨hStill, hRest w hVacant hStill⟩
    · exact .inl hFounded
  | @call _ _ f args next hArgs hRest =>
    obtain rfl := Option.some.inj hNext
    exact .inr ⟨hVacant.emit _, Program.Harmless.bind (hHandler f args hArgs) hRest⟩
  | loop hBody hRest =>
    obtain rfl := Option.some.inj hNext
    exact .inr ⟨hVacant, hBody.unroll hRest⟩

/-- Once there is a first machine its names do not change. -/
theorem next_founded {c c' : Config α} (hFounded : c.world.Founded)
    (hNext : c.next .standard handler = some c') : c'.world.Founded := by
  rcases world_of_next hNext with hw | ⟨f, args, hw⟩ | ⟨β, p, _, _, hw⟩
  · rwa [hw]
  · rw [hw]
    exact hFounded.emit _
  · rw [hw]
    exact hFounded.effect p

/-- **There is no machine, or the names of the first one are detached,** at every moment of every
execution of a harmless program. -/
theorem vacant_or_founded (hHandler : handler.Harmless) {p : Program α}
    (hp : p.Harmless fun _ => True) (n : Nat) :
    ((start p).after .standard handler n).world.Vacant ∨
      ((start p).after .standard handler n).world.Founded := by
  -- as long as there is no machine, what is left of the program is harmless
  have hMoment (n : Nat) (c : Config α) (hc : c.world.Founded ∨
      c.world.Vacant ∧ c.program.Harmless fun _ => True) :
      (c.after .standard handler n).world.Vacant ∨ (c.after .standard handler n).world.Founded := by
    induction n generalizing c with
    | zero => exact hc.elim .inr fun h => .inl h.1
    | succ n ih =>
      cases hNext : c.next .standard handler with
      | none =>
        rw [after_of_next_eq_none hNext]
        exact hc.elim .inr fun h => .inl h.1
      | some c' =>
        rw [after_succ_of_next hNext]
        refine ih c' ?_
        rcases hc with hFounded | ⟨hVacant, hProgram⟩
        · exact .inl (next_founded hFounded hNext)
        · exact next_harmless hHandler hVacant hProgram hNext
  exact hMoment n (start p) (.inr ⟨World.vacant_empty, hp⟩)

end Config

-- ---------------------------------------------------------------------------
-- Everything that is put together is harmless
-- ---------------------------------------------------------------------------

namespace Run

variable {α β : Type} {P : β → Prop} {Q : α → Prop}

/-- The same for programs that may fail. -/
theorem Harmless.bind {x : Run β} {k : β → Run α} (hx : x.Harmless P)
    (hk : ∀ b, P b → (k b).Harmless Q) : (x >>= k).Harmless Q := by
  unfold Run.Harmless
  rw [run_bind]
  refine Program.Harmless.bind hx fun r hr => ?_
  cases r with
  | ok b => exact hk b (hr b rfl)
  | error fault => exact .ret fun _ h => by cases h

/-- A primitive that mentions no machine is harmless, and what it gives mentions none. -/
theorem harmless_act {p : Primitive α} (h : p.Within fun _ => False) :
    (act p).Harmless (p.contents.Within fun _ => False) := by
  refine .perform (fun w hw => ?_) fun w hw hVacant => .ret fun a ha => ?_
  · by_cases hNone : (p.effect w).2.machines = []
    · exact .inl (Primitive.vacant_effect hw h hNone).1
    · exact .inr (Primitive.founded_effect hw h hNone)
  · exact (Primitive.vacant_effect hw h hVacant.machines).2 a (Primitive.answer_of_outcome ha)

theorem harmless_fail (cause : Cause) : (fail cause : Run α).Harmless Q :=
  .perform (fun _ hw => .inl hw) fun _ _ _ => .ret fun _ h => by cases h

/-- A reading that mentions no machine is harmless, whatever the outcome. -/
theorem harmless_reading {r : Reading Cause α} (h : r.Drains (fun _ => False) Q) :
    (reading r).Harmless Q := by
  refine .perform (fun w hw => .inl ?_) fun w hw _ => .ret fun a ha => ?_
  · exact ⟨hw.machines, { hw.within with streams := (h w.streams hw.within.streams).1 }⟩
  · exact (h w.streams hw.within.streams).2 a (Primitive.answer_of_outcome ha)

theorem Harmless.outcome {x : Run α} (hx : x.Harmless Q) :
    (outcome x).Harmless fun r => ∀ a, r = .ok a → Q a :=
  Program.Harmless.bind hx fun _ hr => .ret fun _ h => Except.ok.inj h ▸ hr

/-- To repeat a harmless program until it gives a value is harmless. -/
theorem Harmless.repeatUntil {x : Run (Option α)} (hx : x.Harmless fun r => ∀ a ∈ r, Q a) :
    (repeatUntil x).Harmless Q := by
  refine .loop (P := fun r => ∀ a, r = .ok a → Q a) (Program.Harmless.bind hx fun r hr => .ret ?_)
    fun _ hr => .ret hr
  intro result hResult a ha
  subst ha
  -- a failure and a value end the loop, nothing goes round again
  rcases r with fault | _ | b
  · cases Option.some.inj hResult
  · cases hResult
  · obtain rfl := Except.ok.inj (Option.some.inj hResult)
    exact hr _ rfl _ rfl

end Run

/-- Being harmless as a correspondence. Nothing is renamed, everything is allowed, and nothing is
known. -/
def Correspondence.harmless : Correspondence where
  ρ := .identity
  known _ := False
  allows _ := True
  Holds c x _ := x.Harmless (c.Within fun _ => False)

namespace Correspondence

/-- Being harmless passes through everything that programs are put together from. -/
theorem harmless_lawful : harmless.Lawful where
  home _ := .rfl
  looks _ _ := trivial
  ofOutcome h := .ret h
  bind hx hk := hx.bind hk
  act _ _ _ h := Run.harmless_act h
  fail cause _ := Run.harmless_fail cause
  call _ h := .call h fun _ hr => .ret hr
  allowed _ _ := trivial
  reading _ _ hDrains := Run.harmless_reading hDrains
  outcome hx := hx.outcome
  keeping hNone _ := hNone.elim
  repeatUntil hx := hx.repeatUntil
  construct {_ _ table _ _} hTable hk :=
    (Run.harmless_act (p := .construct table) hTable).bind fun m hm => hk m hm fun _ => trivial
  select hNever := absurd trivial hNever

/-- A value that mentions no machine is the same for everyone. -/
theorem harmless_fixed {v : Value} (h : v.detached = true) :
    v.Fixed harmless.ρ harmless.known :=
  ⟨v.rename_identity, Value.within_of_detached h⟩

end Correspondence

open Correspondence (harmless_lawful harmless_fixed)

/-- **Functions of scripts without references are harmless.** -/
theorem Functions.handler_harmless {functions : Functions}
    (h : ∀ name, Value.allDetached (functions name).constants = true) :
    functions.handler.Harmless :=
  fun name _ hArgs => harmless_lawful.handler
    (fun name v hv => harmless_fixed (Value.allDetached_iff.mp (h name) v hv))
    (.inl fun _ => trivial) name hArgs

namespace Session

/-- A script whose constants mention no machine is harmless up to its first machine. -/
theorem program_harmless {script : List Instruction}
    (h : ∀ i ∈ script, ∀ v ∈ i.command.constants, v.detached = true) :
    (program script).Harmless fun _ => True := by
  induction script with
  | nil => exact .ret trivial
  | cons i rest ih =>
    obtain ⟨hFirst, hRest⟩ := List.forall_mem_cons.mp h
    -- the first command, and then the rest of the script after it
    have hPerform : (Run.perform .outermost i).Harmless fun _ => True :=
      harmless_lawful.perform (Frame.within_outermost _) i
        (fun v hv => harmless_fixed (hFirst v hv))
        (.inl fun _ => trivial)
    exact Program.Harmless.bind hPerform fun _ _ => (ih hRest).bind fun _ _ => .ret trivial

end Session

-- ---------------------------------------------------------------------------
-- The log and the history
-- ---------------------------------------------------------------------------

/-- The log tells the history of a machine, in the texts that names have now.

* `entries`: what is told is, entry by entry, the text of the state entered and the number of
  entries of the same state up to then.
* `visits`: each visit that a state keeps is told where it is in the history, with its number.
* `stack`, `counts`: if different states have different texts, what is told gives back the stack and
  the number of visits to each state. Different names may well have one text, as a number and its
  digits do. -/
structure World.Chronicles (w : World) (ref : MachineRef) : Prop where
  entries : w.told ref = Tale.of (fun _ => w.plain) (w.machine ref).stack
  visits : ∀ i < (w.machine ref).states.length, ∀ k position,
    ((w.machine ref).state i).visits[k]? = some position →
      (w.told ref)[position]? = some (w.plain ((w.machine ref).nameOf i), k + 1)
  stack : (w.machine ref).TellsApart w.plain →
    (w.machine ref).readBack w.plain (w.told ref) = (w.machine ref).stack
  counts : (w.machine ref).TellsApart w.plain → ∀ i < (w.machine ref).states.length,
    (w.told ref).visits (w.plain ((w.machine ref).nameOf i)) =
      ((w.machine ref).state i).visits.length

/-- The log tells the history of a machine whose names mention no machine. -/
theorem World.Tells.chronicles {w : World} {ref : MachineRef} (h : w.Tells ref)
    (hConsistent : (w.machine ref).Consistent ref)
    (hNames : ∀ i < (w.machine ref).states.length, ((w.machine ref).nameOf i).detached = true) :
    w.Chronicles ref := by
  -- the names mention no machine, so they are written the same at every moment
  have hTold : w.told ref = Tale.of (fun _ => w.plain) (w.machine ref).stack := by
    obtain ⟨written, hWritten⟩ := h
    rw [hWritten]
    refine Tale.of_congr fun position name hPosition => ?_
    obtain ⟨i, hi, rfl⟩ := hConsistent.visited name (List.mem_of_getElem? hPosition)
    exact Value.plain_detached (hNames i hi) _ _
  constructor
  · exact hTold
  · rw [hTold]
    exact fun i hi k position hVisit => hConsistent.told_visit hi hVisit
  · rw [hTold]
    exact hConsistent.readBack
  · rw [hTold]
    exact fun hApart i hi => hConsistent.visits_told hApart hi

namespace Session

/-- **The log tells the history of the machine that a session builds first,** and so of the only
one, at every moment, whatever functions do. Scripts have no way to write down a reference to a
machine, so their constants are detached. -/
theorem log_tells_history {functions : Functions} {script : List Instruction}
    (hFunctions : ∀ name, Value.allDetached (functions name).constants = true)
    (hScript : Value.allDetached (script.flatMap Instruction.constants) = true) (n : Nat) :
    ((Config.start (program script)).after .standard functions.handler n).world.Chronicles 0 := by
  have hTells := Config.tells functions.handler (program script) n 0
  have hConsistent := Config.consistent functions.handler (program script) n 0
  refine hTells.chronicles hConsistent ?_
  have hConstants : ∀ i ∈ script, ∀ v ∈ i.command.constants, v.detached = true :=
    fun i hi v hv => Value.allDetached_iff.mp hScript v
      (List.mem_flatMap.mpr ⟨i, hi, List.mem_append_right _ hv⟩)
  -- without a machine there is no name to ask for
  rcases Config.vacant_or_founded (Functions.handler_harmless hFunctions)
    (program_harmless hConstants) n with hVacant | hFounded
  · intro i hi
    rw [World.machine, hVacant.machines] at hi
    exact absurd hi (Nat.not_lt_zero i)
  · exact hFounded.names

/-- A machine in which entering the second state resets the machine, enters the first one, and then
fails. -/
def bouncing : Functions
  | "bounce" =>
    { body :=
        [.plain none (.onMachine .reset),
          .plain none (.onMachine (.setState (.constant (.text "a")))),
          .plain none (.free (.fail .value "bounced"))]
      result := .constant .null }
  | _ => .empty

/-- Builds the machine, starts it, enters the second state, and starts the machine once more. -/
def bounces : List Instruction :=
  let table : Value := .map
    [(.text "a", .null), (.text "b", .map [(.text "on_enter", .function "bounce")])]
  [.plain none (.build (.constant table) none), .plain none (.onMachine .start),
    .plain none (.onMachine (.setState (.constant (.text "b")))), .plain none (.onMachine .start)]

/-- After the reset the first state was entered twice, and so it is told. -/
theorem log_tells_bounces :
    let c := (Config.start (program bounces)).after .standard bouncing.handler 100
    c.answer?.isSome = true ∧ c.world.Chronicles 0 ∧
      c.world.told 0 = [("a", 1), ("a", 2)] ∧
      (c.world.machine 0).readBack c.world.plain [("a", 1), ("a", 2)] =
        (c.world.machine 0).stack := by
  intro c
  have hChronicles : c.world.Chronicles 0 := by
    refine log_tells_history (fun name => ?_) (by decide) 100
    unfold bouncing
    split <;> rfl
  have hTold : c.world.told 0 = [("a", 1), ("a", 2)] := by decide +kernel
  refine ⟨by decide +kernel, hChronicles, hTold, ?_⟩
  rw [← hTold]
  exact hChronicles.stack (by decide +kernel)

end Session

end RuleMachine
