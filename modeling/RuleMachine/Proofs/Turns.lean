import RuleMachine.Proofs.Resuming

/-!
# What a run does

A run starts a machine that has no current state. Then it takes turns: it asks whether the machine
is done, and if not it switches. It ends with the first turn that finds the machine done, or with
the first thing that fails. Nothing bounds the number of turns, and a run that ends does so after
some number of them.

A program that has ended did certain deeds, gave a certain answer and left a certain world, and
`Config.Completes` says which. So where it is said what a run completes with, it is also said that
it did nothing else.

* `Config.completes_bind`: what two programs complete with one after the other.
* `Config.Turns`: full turns of a run, one after the other.
* `Config.run_completes`: what a run does, whatever functions do.
-/

namespace RuleMachine

/-- What follows a turn, if the machine is done and if it is not. -/
theorem Run.nextStep_bind {α : Type} (m : MachineRef) (inputs : List Value)
    (f : Option StateRef → Run α) :
    nextStep m inputs >>= f =
      done m >>= fun a => if a.truthy then f none else switch m inputs >>= fun s => f (some s) := by
  rw [nextStep, bind_assoc]
  refine congrArg (done m >>= ·) (funext fun a => ?_)
  split
  · rw [pure_bind]
  · rw [bind_assoc]
    simp only [pure_bind]

namespace Config

variable {handler : Handler} {α β : Type}

-- ---------------------------------------------------------------------------
-- Programs that have ended
-- ---------------------------------------------------------------------------

/-- Whether a program does certain deeds and then ends, with a given answer and in a given world. -/
def Completes (handler : Handler) (c : Config α) (ds : List Deed) (a : α) (w : World) : Prop :=
  c.Did handler ds { program := .ret a, world := w }

variable {c c' c'' : Config α} {ds ds' : List Deed} {a b : α} {w w' w₁ : World}

/-- Deeds one after the other are deeds. -/
theorem Did.trans (h : c.Did handler ds c') (h' : c'.Did handler ds' c'') :
    c.Did handler (ds ++ ds') c'' := by
  induction h with
  | refl c => exact h'
  | perform rest ih =>
    rw [List.append_assoc]
    exact .perform (ih h')
  | call hCall rest ih => exact .call hCall (ih h')
  | loop rest ih => exact .loop (ih h')

/-- What is to follow a program makes no difference to what it does. -/
theorem Did.andThen (h : c.Did handler ds c') (k : α → Program β) :
    (c.andThen k).Did handler ds (c'.andThen k) := by
  induction h with
  | refl c => exact .refl _
  | perform rest ih => exact .perform ih
  | call hCall rest ih => exact .call hCall ih
  | @loop _ body next w _ _ rest ih =>
    exact .loop (.of_eq (congrArg (Config.mk · w) (Program.unroll_bind body next k).symm) ih)

theorem Completes.ends (h : c.Completes handler ds a w) : c.Ends handler a w := Did.leads h

/-- A program that comes to an end has done something by then. -/
theorem Ends.completes (h : c.Ends handler a w) : ∃ ds, c.Completes handler ds a w := by
  obtain ⟨n, hn⟩ := h
  obtain ⟨ds, c', hDid, hDuring⟩ : ∃ ds c', c.Did handler ds c' ∧
      c'.During handler (c.after .standard handler n) := did_after c n
  rw [hn] at hDuring
  rcases hDuring with rfl | ⟨f, args, next, k, hCall, hEnd⟩
  · exact ⟨ds, hDid⟩
  · -- the last thing it did was a call, and nothing is left to do after it
    obtain ⟨p, v⟩ := c'
    obtain rfl : p = .call f args next := hCall
    generalize hCallee : (calling handler f args v).after .standard handler k = callee at hEnd
    obtain ⟨q, v'⟩ := callee
    cases q with
    | ret r =>
      let last : Deed := { act := .call f args, before := v, after := v', failure := failure? r }
      have hLast : ({ program := .call f args next, world := v } : Config α).Did handler [last]
          { program := next r, world := v' } := .call ⟨k, hCallee⟩ (.refl _)
      refine ⟨ds ++ [last], ?_⟩
      rw [Completes, hEnd]
      exact hDid.trans hLast
    | perform _ _ | call _ _ _ | loop _ _ => cases hEnd

/-- A program that has ended did so in one way. -/
theorem Completes.unique (h : c.Completes handler ds a w) (h' : c.Completes handler ds' b w') :
    ds = ds' ∧ a = b ∧ w = w' := by
  -- the deeds follow the program, and a call has one outcome
  have hSame {c c' : Config α} {ds ds' : List Deed} (h : c.Did handler ds c')
      (hEnd : c'.program = .ret a) (h' : c.Completes handler ds' b w') : ds = ds' := by
    induction h generalizing ds' with
    | refl c =>
      obtain ⟨p, v⟩ := c
      obtain rfl : p = .ret a := hEnd
      cases h'
      rfl
    | perform rest ih =>
      cases h' with
      | perform rest' => rw [ih hEnd rest']
    | call hCall rest ih =>
      cases h' with
      | call hCall' rest' =>
        obtain ⟨rfl, rfl⟩ := hCall.unique hCall'
        rw [ih hEnd rest']
    | loop rest ih =>
      cases h' with
      | loop rest' => exact ih hEnd rest'
  exact ⟨hSame h rfl h', h.ends.unique h'.ends⟩

/-- **What two programs complete with one after the other:** the first one fails, or it does not and
the second one does the rest. -/
theorem completes_bind {x : Run β} {f : β → Run α} {r : Except Fault α} :
    (begin (x >>= f) w).Completes handler ds r w' ↔
      (∃ fault, (begin x w).Completes handler ds (.error fault) w' ∧ r = .error fault) ∨
      ∃ b w₁ ds₁ ds₂, ds = ds₁ ++ ds₂ ∧ (begin x w).Completes handler ds₁ (.ok b) w₁ ∧
        (begin (f b) w₁).Completes handler ds₂ r w' := by
  rw [begin, Run.run_bind]
  constructor
  · intro h
    rcases Did.of_bind h with ⟨p', -, hRunning, hProgram⟩ | ⟨ds₁, ds₂, b, w₁, rfl, hFirst, hRest⟩
    · -- a program that has not ended cannot be at the end of both
      cases p' with
      | ret b => exact absurd rfl (hRunning b)
      | perform _ _ | call _ _ _ | loop _ _ => cases hProgram
    · cases b with
      | ok b => exact .inr ⟨b, w₁, ds₁, ds₂, rfl, hFirst, hRest⟩
      | error fault =>
        cases hRest
        rw [List.append_nil]
        exact .inl ⟨fault, hFirst, rfl⟩
  · rintro (⟨fault, hFails, rfl⟩ | ⟨b, w₁, ds₁, ds₂, rfl, hFirst, hRest⟩)
    · exact hFails.andThen _
    · exact (hFirst.andThen _).trans hRest

/-- A value completes at once. -/
theorem completes_pure {a : α} {r : Except Fault α} :
    (begin (pure a : Run α) w).Completes handler ds r w' ↔ ds = [] ∧ r = .ok a ∧ w' = w := by
  constructor
  · intro h
    cases h
    exact ⟨rfl, rfl, rfl⟩
  · rintro ⟨rfl, rfl, rfl⟩
    exact .refl _

/-- A primitive operation is one deed, or none if it only looks. -/
theorem completes_act {p : Primitive α} {r : Except Fault α} :
    (begin (Run.act p) w).Completes handler ds r w' ↔
      ds = p.deeds w ∧ r = (p.effect w).1.mapError w.fault ∧ w' = (p.effect w).2 := by
  constructor
  · intro h
    cases h with
    | perform rest =>
      cases rest
      exact ⟨List.append_nil _, rfl, rfl⟩
  · rintro ⟨rfl, rfl, rfl⟩
    rw [← List.append_nil (p.deeds w)]
    exact .perform (.refl _)

theorem completes_look {q : Query α} {r : Except Fault α} :
    (begin (Run.look q) w).Completes handler ds r w' ↔
      ds = [] ∧ r = (q.answer w).mapError w.fault ∧ w' = w :=
  completes_act

/-- What comes after a look that is answered. -/
theorem completes_look_bind {q : Query β} {b : β} (hAnswer : q.answer w = .ok b) {f : β → Run α}
    {r : Except Fault α} :
    (begin (Run.look q >>= f) w).Completes handler ds r w' ↔
      (begin (f b) w).Completes handler ds r w' := by
  rw [completes_bind]
  constructor
  · -- the look does not fail, since it has an answer
    rintro (⟨fault, hLook, -⟩ | ⟨b', w₁, ds₁, ds₂, rfl, hLook, hRest⟩)
    · rw [completes_look, hAnswer] at hLook
      cases hLook.2.1
    · rw [completes_look, hAnswer] at hLook
      obtain ⟨rfl, hb, rfl⟩ := hLook
      cases hb
      exact hRest
  · intro h
    refine .inr ⟨b, w, [], ds, rfl, ?_, h⟩
    rw [completes_look, hAnswer]
    exact ⟨rfl, rfl, rfl⟩

/-- A call completes as the function does, and is one deed whatever the function did. -/
theorem completes_call {f : FunctionName} {args : List Value} {r : Except Fault Value} :
    (begin (Run.call f args) w).Completes handler ds r w' ↔
      (calling handler f args w).Ends handler r w' ∧
        ds = [{ act := .call f args, before := w, after := w', failure := failure? r }] := by
  constructor
  · intro h
    cases h with
    | call hCall rest =>
      cases rest
      exact ⟨hCall, rfl⟩
  · rintro ⟨hCall, rfl⟩
    exact .call hCall (.refl _)

-- ---------------------------------------------------------------------------
-- Turns
-- ---------------------------------------------------------------------------

variable {m : MachineRef} {inputs : List Value} {r : Except Fault (Option StateRef)}

/-- Asking a predicate is one call of a function, or none at all. -/
theorem completes_ask {predicate : Predicate} {args : List Value} {r : Except Fault Value} :
    (begin (Run.ask predicate args) w).Completes handler ds r w' ↔
      match predicate with
      | .constant v => ds = [] ∧ r = .ok v ∧ w' = w
      | .function f => (calling handler f args w).Ends handler r w' ∧
          ds = [{ act := .call f args, before := w, after := w', failure := failure? r }] := by
  cases predicate with
  | constant v => exact completes_pure
  | function f => exact completes_call

/-- Asking whether a machine is done is one call of a function, or none at all. -/
theorem completes_done {r : Except Fault Value} :
    (begin (Run.done m) w).Completes handler ds r w' ↔
      match (w.machine m).done with
      | .constant v => ds = [] ∧ r = .ok v ∧ w' = w
      | .function f => (calling handler f [.machine m] w).Ends handler r w' ∧
          ds = [{ act := .call f [.machine m], before := w, after := w'
                  failure := failure? r }] := by
  have hAnswer : (Query.done m).answer w = .ok (w.machine m).done := rfl
  rw [Run.done, completes_look_bind hAnswer]
  exact completes_ask

/-- How a run begins: a machine that has no current state is started, and another one is not. -/
inductive Begins (handler : Handler) (m : MachineRef) (w : World) :
    List Deed → Except Fault Unit → World → Prop
  | going {s : StateRef} (hCurrent : w.current? m = some s) : Begins handler m w [] (.ok ()) w
  | started {ds : List Deed} {s : Option StateRef} {w' : World} (hCurrent : w.current? m = none)
    (hStart : (begin (Run.start m) w).Completes handler ds (.ok s) w') :
    Begins handler m w ds (.ok ()) w'
  | failed {ds : List Deed} {fault : Fault} {w' : World} (hCurrent : w.current? m = none)
    (hStart : (begin (Run.start m) w).Completes handler ds (.error fault) w') :
    Begins handler m w ds (.error fault) w'

/-- A number of full turns, one after the other: the machine says that it is not done, and switches.
-/
inductive Turns (handler : Handler) (m : MachineRef) (inputs : List Value) :
    Nat → World → List Deed → World → Prop
  | zero (w : World) : Turns handler m inputs 0 w [] w
  | succ {k : Nat} {w w₁ w₂ w₃ : World} {asking switching others : List Deed} {a : Value}
    {s : StateRef} (hDone : (begin (Run.done m) w).Completes handler asking (.ok a) w₁)
    (hFalsy : a.truthy = false)
    (hSwitch : (begin (Run.switch m inputs) w₁).Completes handler switching (.ok s) w₂)
    (rest : Turns handler m inputs k w₂ others w₃) :
    Turns handler m inputs (k + 1) w (asking ++ switching ++ others) w₃

/-- How the last turn of a run goes: the machine says that it is done, or asking fails, or the
switch fails. -/
inductive LastTurn (handler : Handler) (m : MachineRef) (inputs : List Value) (w : World) :
    List Deed → Except Fault (Option StateRef) → World → Prop
  | done {asking : List Deed} {a : Value} {w' : World}
    (hDone : (begin (Run.done m) w).Completes handler asking (.ok a) w')
    (hTruthy : a.truthy = true) :
    LastTurn handler m inputs w asking (.ok (w'.current? m)) w'
  | askingFailed {asking : List Deed} {fault : Fault} {w' : World}
    (hDone : (begin (Run.done m) w).Completes handler asking (.error fault) w') :
    LastTurn handler m inputs w asking (.error fault) w'
  | switchFailed {asking switching : List Deed} {a : Value} {fault : Fault} {w₁ w' : World}
    (hDone : (begin (Run.done m) w).Completes handler asking (.ok a) w₁)
    (hFalsy : a.truthy = false)
    (hSwitch : (begin (Run.switch m inputs) w₁).Completes handler switching (.error fault) w') :
    LastTurn handler m inputs w (asking ++ switching) (.error fault) w'

theorem completes_runOn_none :
    (begin (Run.runOn m inputs none) w).Completes handler ds r w' ↔
      ds = [] ∧ r = .ok (w.current? m) ∧ w' = w := completes_look

/-- The loop of a run does what its turns do. -/
theorem completes_runOn_some (s : StateRef) :
    (begin (Run.runOn m inputs (some s)) w).Completes handler ds r w' ↔
      (begin (Run.nextStep m inputs >>= Run.runOn m inputs) w).Completes handler ds r w' := by
  -- a loop unrolls in one step, which is no deed
  obtain ⟨β, body, next, hLoop⟩ : ∃ (β : Type) (body : Program (Option β))
      (next : β → Program (Except Fault (Option StateRef))),
      ExceptT.run (Run.runOn m inputs (some s)) = .loop body next := ⟨_, _, _, rfl⟩
  have hNext : (begin (Run.runOn m inputs (some s)) w).next .standard handler =
      some (begin (Run.nextStep m inputs >>= Run.runOn m inputs) w) := next_turn s
  rw [begin, hLoop] at hNext ⊢
  have hTurn : begin (Run.nextStep m inputs >>= Run.runOn m inputs) w =
      { program := .unroll body next, world := w } := (Option.some.inj hNext).symm
  rw [hTurn]
  constructor
  · intro h
    cases h with
    | loop rest => exact rest
  · exact .loop

/-- **What a turn and all after it comes to:** it is the last one, or it is a full turn and others
follow. -/
theorem completes_turn :
    (begin (Run.nextStep m inputs >>= Run.runOn m inputs) w).Completes handler ds r w' ↔
      LastTurn handler m inputs w ds r w' ∨
      ∃ a s w₁ w₂ asking switching others, ds = asking ++ switching ++ others ∧
        (begin (Run.done m) w).Completes handler asking (.ok a) w₁ ∧ a.truthy = false ∧
        (begin (Run.switch m inputs) w₁).Completes handler switching (.ok s) w₂ ∧
        (begin (Run.nextStep m inputs >>= Run.runOn m inputs) w₂).Completes handler others r
          w' := by
  have hTurn : begin (Run.nextStep m inputs >>= Run.runOn m inputs) w =
      begin (Run.done m >>= _) w :=
    congrArg (begin · w) (Run.nextStep_bind m inputs (Run.runOn m inputs))
  rw [hTurn, completes_bind]
  constructor
  · rintro (⟨fault, hDone, rfl⟩ | ⟨a, w₁, asking, rest, rfl, hDone, hRest⟩)
    · exact .inl (.askingFailed hDone)
    · -- the condition holds and the run is over, or it switches and there is another turn
      cases hAnswer : a.truthy with
      | true =>
        rw [if_pos hAnswer, completes_runOn_none] at hRest
        obtain ⟨rfl, rfl, rfl⟩ := hRest
        rw [List.append_nil]
        exact .inl (.done hDone hAnswer)
      | false =>
        rw [if_neg (by simp [hAnswer]), completes_bind] at hRest
        rcases hRest with ⟨fault, hSwitch, rfl⟩ | ⟨s, w₂, switching, others, rfl, hSwitch, hOthers⟩
        · exact .inl (.switchFailed hDone hAnswer hSwitch)
        · rw [completes_runOn_some] at hOthers
          exact .inr ⟨a, s, w₁, w₂, asking, switching, others, (List.append_assoc _ _ _).symm,
            hDone, hAnswer, hSwitch, hOthers⟩
  · rintro (hLast |
      ⟨a, s, w₁, w₂, asking, switching, others, rfl, hDone, hAnswer, hSwitch, hOthers⟩)
    · cases hLast with
      | done hDone hAnswer =>
        refine .inr ⟨_, _, ds, [], (List.append_nil _).symm, hDone, ?_⟩
        rw [if_pos hAnswer, completes_runOn_none]
        exact ⟨rfl, rfl, rfl⟩
      | askingFailed hDone => exact .inl ⟨_, hDone, rfl⟩
      | switchFailed hDone hAnswer hSwitch =>
        refine .inr ⟨_, _, _, _, rfl, hDone, ?_⟩
        rw [if_neg (by simp [hAnswer]), completes_bind]
        exact .inl ⟨_, hSwitch, rfl⟩
    · refine .inr ⟨a, w₁, asking, switching ++ others, List.append_assoc _ _ _, hDone, ?_⟩
      rw [if_neg (by simp [hAnswer]), completes_bind]
      refine .inr ⟨s, w₂, switching, others, rfl, hSwitch, ?_⟩
      rwa [completes_runOn_some]

/-- **The turns of a run that ends are some number of full turns, and a last one.** -/
theorem completes_turns :
    (begin (Run.nextStep m inputs >>= Run.runOn m inputs) w).Completes handler ds r w' ↔
      ∃ k v before last, ds = before ++ last ∧ Turns handler m inputs k w before v ∧
        LastTurn handler m inputs v last r w' := by
  constructor
  · intro h
    obtain ⟨n, hn⟩ := h.ends
    -- by induction on the number of steps, of which every turn takes some
    induction n using Nat.strongRecOn generalizing w ds with
    | ind n ih =>
      rcases completes_turn.mp h with
        hLast | ⟨a, s, w₁, w₂, asking, switching, others, rfl, hDone, hFalsy, hSwitch, hOthers⟩
      · exact ⟨0, w, [], ds, rfl, .zero w, hLast⟩
      · have hLeads : (begin (Run.nextStep m inputs >>= Run.runOn m inputs) w).Leads handler
            (begin (Run.runOn m inputs (some s)) w₂) := by
          rw [Run.nextStep_bind]
          refine (hDone.ends.bind _).trans ?_
          rw [if_neg (by simp [hFalsy])]
          exact hSwitch.ends.bind _
        obtain ⟨i, hi⟩ := hLeads
        have hLess : i < n := by
          by_contra hLate
          have hEnded : ((begin (Run.nextStep m inputs >>= Run.runOn m inputs) w).after .standard
              handler n).answer?.isSome = true := by
            rw [hn]
            rfl
          have hLast := after_of_ended hEnded (Nat.not_lt.mp hLate)
          rw [hi, hn] at hLast
          cases hLast
        have hRest : (begin (Run.nextStep m inputs >>= Run.runOn m inputs) w₂).after .standard
            handler (n - (i + 1)) = { program := .ret r, world := w' } := by
          rw [← hn, ← after_succ_of_next (next_turn s), ← hi, ← after_add]
          exact congrArg (Config.after .standard handler · _) (by omega)
        obtain ⟨k, v, before, last, rfl, hTurns, hLast⟩ := ih _ (by omega) hOthers hRest
        exact ⟨k + 1, v, _, last, by simp only [List.append_assoc],
          .succ hDone hFalsy hSwitch hTurns, hLast⟩
  · rintro ⟨k, v, before, last, rfl, hTurns, hLast⟩
    induction hTurns with
    | zero w => exact completes_turn.mpr (.inl hLast)
    | succ hDone hFalsy hSwitch rest ih =>
      refine completes_turn.mpr (.inr ?_)
      exact ⟨_, _, _, _, _, _, _, List.append_assoc _ _ _, hDone, hFalsy, hSwitch, ih hLast⟩

/-- How a run begins, and that its turns follow. -/
theorem completes_run :
    (begin (Run.run m inputs) w).Completes handler ds r w' ↔
      (∃ fault, Begins handler m w ds (.error fault) w' ∧ r = .error fault) ∨
      ∃ w₀ starting turns, ds = starting ++ turns ∧ Begins handler m w starting (.ok ()) w₀ ∧
        (begin (Run.nextStep m inputs >>= Run.runOn m inputs) w₀).Completes handler turns r w' := by
  rw [Run.run_eq, Run.firstStep, bind_assoc]
  -- a machine that has a current state is not started again
  cases hCurrent : w.current? m with
  | some s =>
    have hAnswer : (Query.current m).answer w = .ok (some s) := by rw [Query.answer, hCurrent]
    rw [completes_look_bind hAnswer]
    constructor
    · intro h
      exact .inr ⟨w, [], ds, rfl, .going hCurrent, h⟩
    · rintro (⟨fault, hBegins, -⟩ | ⟨w₀, starting, turns, rfl, hBegins, hTurns⟩)
      · cases hBegins with
        | failed hNone => rw [hCurrent] at hNone; cases hNone
      · cases hBegins with
        | going _ => exact hTurns
        | started hNone => rw [hCurrent] at hNone; cases hNone
  | none =>
    have hAnswer : (Query.current m).answer w = .ok none := by rw [Query.answer, hCurrent]
    rw [completes_look_bind hAnswer]
    simp only [Option.isSome_none, Bool.false_eq_true, if_false, bind_assoc]
    rw [completes_bind]
    constructor
    · rintro (⟨fault, hStart, rfl⟩ | ⟨s, w₀, starting, turns, rfl, hStart, hTurns⟩)
      · exact .inl ⟨fault, .failed hCurrent hStart, rfl⟩
      · refine .inr ⟨w₀, starting, turns, rfl, .started hCurrent hStart, ?_⟩
        cases s with
        | none => exact hTurns
        | some s => exact (completes_runOn_some s).mp hTurns
    · rintro (⟨fault, hBegins, rfl⟩ | ⟨w₀, starting, turns, rfl, hBegins, hTurns⟩)
      · cases hBegins with
        | failed _ hStart => exact .inl ⟨fault, hStart, rfl⟩
      · cases hBegins with
        | going hSome => rw [hCurrent] at hSome; cases hSome
        | @started _ s _ _ hStart =>
          refine .inr ⟨s, w₀, starting, turns, rfl, hStart, ?_⟩
          cases s with
          | none => exact hTurns
          | some s => exact (completes_runOn_some s).mpr hTurns

/-- **What a run does.** A start that fails is all of it. Otherwise it is the start, if there is no
current state, some number of full turns, and a last turn, from which it has its answer or its
failure. -/
theorem run_completes :
    (begin (Run.run m inputs) w).Completes handler ds r w' ↔
      (∃ fault, Begins handler m w ds (.error fault) w' ∧ r = .error fault) ∨
      ∃ k w₀ v starting before last, ds = starting ++ (before ++ last) ∧
        Begins handler m w starting (.ok ()) w₀ ∧ Turns handler m inputs k w₀ before v ∧
        LastTurn handler m inputs v last r w' := by
  rw [completes_run]
  refine or_congr_right ?_
  constructor
  · rintro ⟨w₀, starting, turns, rfl, hBegins, hTurns⟩
    obtain ⟨k, v, before, last, rfl, hTurns, hLast⟩ := completes_turns.mp hTurns
    exact ⟨k, w₀, v, starting, before, last, rfl, hBegins, hTurns, hLast⟩
  · rintro ⟨k, w₀, v, starting, before, last, rfl, hBegins, hTurns, hLast⟩
    exact ⟨w₀, starting, _, rfl, hBegins,
      completes_turns.mpr ⟨k, v, before, last, rfl, hTurns, hLast⟩⟩

-- ---------------------------------------------------------------------------
-- The number of turns
-- ---------------------------------------------------------------------------

/-- A last turn is not a full one. -/
theorem LastTurn.not_full {asking switching : List Deed} {a : Value} {s : StateRef} {w₂ : World}
    (hLast : LastTurn handler m inputs w ds r w')
    (hDone : (begin (Run.done m) w).Completes handler asking (.ok a) w₁)
    (hFalsy : a.truthy = false) :
    ¬ (begin (Run.switch m inputs) w₁).Completes handler switching (.ok s) w₂ := by
  intro hSwitch
  -- each way to end contradicts one of the two halves of a full turn
  cases hLast with
  | done hDone' hTruthy =>
    obtain ⟨-, hAnswer, -⟩ := hDone.unique hDone'
    cases hAnswer
    rw [hFalsy] at hTruthy
    cases hTruthy
  | askingFailed hDone' => cases (hDone.unique hDone').2.1
  | switchFailed hDone' _ hSwitch' =>
    obtain ⟨-, -, rfl⟩ := hDone.unique hDone'
    cases (hSwitch.unique hSwitch').2.1

/-- From a world there is one number of full turns before a last one. -/
theorem Turns.unique {k k' : Nat} {v v' u u' : World} {before before' last last' : List Deed}
    {r' : Except Fault (Option StateRef)} (hTurns : Turns handler m inputs k w before v)
    (hLast : LastTurn handler m inputs v last r u)
    (hTurns' : Turns handler m inputs k' w before' v')
    (hLast' : LastTurn handler m inputs v' last' r' u') : k = k' := by
  induction hTurns generalizing k' before' with
  | zero w =>
    -- executions are deterministic, so both runs are at their last turn at once
    cases hTurns' with
    | zero => rfl
    | succ hDone hFalsy hSwitch _ => exact absurd hSwitch (hLast.not_full hDone hFalsy)
  | succ hDone hFalsy hSwitch rest ih =>
    cases hTurns' with
    | zero => exact absurd hSwitch (hLast'.not_full hDone hFalsy)
    | succ hDone' _ hSwitch' rest' =>
      obtain ⟨-, -, rfl⟩ := hDone.unique hDone'
      obtain ⟨-, -, rfl⟩ := hSwitch.unique hSwitch'
      rw [ih hLast rest']

end Config

end RuleMachine
