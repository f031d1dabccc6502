import RuleMachine.Proofs.Detached
import RuleMachine.Proofs.Parties
import RuleMachine.Proofs.Renaming.Sessions

/-!
# Parties that take turns

Several parties take turns in a session, each with machines, names and streams of its own. If each
keeps apart from the others, none of them can tell that there are others: what it does has the
outcomes that it has when only its own instructions are performed, and it leaves the same entries in
the log and the same machines.

As NaNs, streams and machines are numbered in the order in which they are made, those that a party
makes have other numbers than when it is alone. So one world mirrors another for a party if what the
party may look at is the same in both up to a renaming. A turn of the party keeps it so, and so does
a turn of anybody else.

Main statement: `Session.alone`.
-/

namespace RuleMachine

variable {ι : Type} [DecidableEq ι]

-- ---------------------------------------------------------------------------
-- What there is
-- ---------------------------------------------------------------------------

/-- Whether a machine, or the one of a state, is among the first ones that are built. -/
def Value.IsBelow (count : Nat) (r : Value) : Prop := ∀ m ∈ r.home?, m < count

/-- Whoever makes things up to some last numbers knows the machines that have been built by then. -/
theorem Renaming.scope_below (ρ : Renaming) (last : Supply) :
    ρ.Scope last (Value.IsBelow (last .machine)) where
  home _ := .rfl
  new _ hm := fun _ hHome => Option.some.inj hHome ▸ hm
  apart := .inl fun _ hs => hs _ rfl

/-- Whether a value contains nothing that has a number: no NaN, no stream and no machine. -/
def Value.Bare (v : Value) : Prop := ∀ (ρ : Renaming) (known : Value → Prop), v.Fixed ρ known

/-- Whether the constants of an instruction contain nothing that has a number. Scripts cannot write
down anything else. -/
def Instruction.Bare (i : Instruction) : Prop := ∀ v ∈ i.constants, v.Bare

/-- Whether the constants of all functions are so. -/
def Functions.Bare (functions : Functions) : Prop :=
  ∀ name, ∀ v ∈ (functions name).constants, v.Bare

-- ---------------------------------------------------------------------------
-- Worlds that mirror another
-- ---------------------------------------------------------------------------

namespace World

variable {ρ ρ' : Renaming} {owners : Owners ι} {me : ι} {first : Nat} {w u v v' : World}

/-- What is made next corresponds up to a later number as well, if the renaming says so. -/
theorem Renamed.raise {last : Supply} {base base' : List LogEntry}
    (h : Renamed ρ w.supply base base' w u) (hShifts : ρ.Shifts w.supply u.supply last) :
    Renamed ρ last base base' w u :=
  { h with
    machines := { h.machines with next := hShifts .machine }
    streams := { h.streams with next := hShifts .stream }
    nans := hShifts .nan }

/-- Whether a party finds in one world what it finds in another, up to a renaming. In the first one
it is alone. Machines with the first numbers were there before, and the others are its own. `u` is
the world in which the others have done nothing, with the numbers of `v`. -/
structure Mirrors (owners : Owners ι) (me : ι) (first : Nat) (ρ : Renaming) (w v : World) :
    Prop where
  inside : ρ.Inside w.supply v.supply
  within : ∀ last : Supply, w.supply ≤ last → w.Within (Value.IsBelow (last .machine))
  built : ∀ m, first ≤ m → m < w.machines.length → owners.machine (ρ .machine m) = some me
  shadow : ∀ ρ', ρ.Extends w.supply v.supply ρ' → ∃ u : World,
    Renamed ρ' w.supply w.log.toList u.log.toList w u ∧ u.Agrees owners me v

/-- Machines that the party may look at are the same in both. -/
theorem Mirrors.machine (h : Mirrors owners me first ρ w v)
    (hExtends : ρ.Extends w.supply v.supply ρ') {m : MachineRef}
    (hm : isOpenTo me (owners.machine (ρ' .machine m)) = true) :
    v.machine (ρ' .machine m) = (w.machine m).rename ρ' := by
  obtain ⟨u, hRenamed, hAgrees⟩ := h.shadow ρ' hExtends
  rw [hAgrees.machine _ hm, hRenamed.machine]

/-- Names that the party may look up are bound to the same machines. -/
theorem Mirrors.bound (h : Mirrors owners me first ρ w v)
    (hExtends : ρ.Extends w.supply v.supply ρ') {id : String}
    (hId : isOpenTo me (owners.bound id) = true) :
    v.bound.get? id = (w.bound.get? id).map (ρ' .machine) := by
  obtain ⟨u, hRenamed, hAgrees⟩ := h.shadow ρ' hExtends
  have hSeen := congrArg (Bindings.get? · id) hAgrees.bound
  simp only [Owners.seen,
    Bindings.get?_only (P := fun id => isOpenTo me (owners.bound id)) hId] at hSeen
  rw [hSeen, hRenamed.bound, Bindings.get?_mapValues]

-- What the others have made.

/-- A world to which everything is added that has been made by then in another one, and which has
the log of that one. -/
def skipTo (u v : World) : World :=
  { u with
    machines := u.machines ++ v.machines.drop u.machines.length
    nans := v.nans
    streams := { left := u.streams.left ++ v.streams.left.drop u.streams.left.length }
    log := v.log }

theorem length_skip {α : Type} {items others : List α} (h : items.length ≤ others.length) :
    (items ++ others.drop items.length).length = others.length := by
  rw [List.length_append, List.length_drop, Nat.add_sub_cancel' h]

/-- What is added is what there is in the other. -/
theorem getElem?_skip {α : Type} {items others : List α} {n : Nat} (h : items.length ≤ n) :
    (items ++ others.drop items.length)[n]? = others[n]? := by
  rw [List.getElem?_append_right h, List.getElem?_drop, Nat.add_sub_cancel' h]

/-- To a world before them the things that are added do not correspond. -/
theorem Renamed.skipTo {base base' : List LogEntry} (h : Renamed ρ w.supply base base' w u)
    (hGrows : u.supply ≤ v.supply)
    (hBeyond : ∀ kind n, w.supply kind ≤ n → v.supply kind ≤ ρ kind n) :
    Renamed ρ w.supply w.log.toList (u.skipTo v).log.toList w (u.skipTo v) :=
  { h with
    machines := h.machines.skip _ fun n hn => by
      rw [length_skip (hGrows .machine)]
      exact hBeyond .machine n hn
    streams := h.streams.skip _ fun n hn => by
      rw [length_skip (hGrows .stream)]
      exact hBeyond .stream n hn
    nans := fun k hk => absurd hk (Nat.not_lt.mpr (Nat.le_add_right _ _))
    log := ⟨[], (List.append_nil _).symm, (List.append_nil _).symm⟩ }

/-- Worlds that agree still agree after a turn of somebody else, once what was made in it is
added. -/
theorem Agrees.skipTo (h : u.Agrees owners me v) (hSame : v.SameFor owners me v')
    (hActive : v'.active = v.active) (hGrows : v.supply ≤ v'.supply) (hFits : v'.Fits owners) :
    (u.skipTo v').Agrees owners me v' := by
  have hBoth := h.toSameFor.trans hSame
  have hSupply : u.supply ≤ v'.supply := h.supply ▸ hGrows
  have hLength : v'.machines.length = (u.skipTo v').machines.length :=
    (length_skip (hSupply .machine)).symm
  have hOld {m : MachineRef} (hm : m < u.machines.length) :
      (u.skipTo v').machine m = u.machine m := by
    rw [World.machine, World.skipTo, List.getElem?_append_left hm, World.machine]
  have hNew {m : MachineRef} (hm : u.machines.length ≤ m) :
      (u.skipTo v').machine m = v'.machine m := by
    rw [World.machine, World.skipTo, getElem?_skip hm, World.machine]
  refine
    { grows := Nat.le_of_eq hLength.symm
      machine := fun m hm => ?_
      declared := fun m hm => ?_
      bound := hBoth.bound
      pinned := hBoth.pinned
      held := hBoth.held
      steppers := hBoth.steppers
      streams := fun id hId => ?_
      length := hLength
      active := hActive.trans h.active
      nans := rfl
      streamCount := (length_skip (hSupply .stream)).symm
      log := List.forall₂_same.mpr fun _ _ => ⟨rfl, rfl⟩
      fits := h.fits
      fits' := hFits }
  · -- a machine was there before and is the same, or it is one of those that are added
    rcases Nat.lt_or_ge m u.machines.length with hm' | hm'
    · rw [hOld hm', hBoth.machine m hm]
    · rw [hNew hm']
  · rcases Nat.lt_or_ge m u.machines.length with hm' | hm'
    · rw [hOld hm', hBoth.declared m hm']
    · rw [hNew hm']
  · show v'.streams.left[id]? = (u.streams.left ++ v'.streams.left.drop u.streams.left.length)[id]?
    rcases Nat.lt_or_ge id u.streams.left.length with hId' | hId'
    · rw [List.getElem?_append_left hId', hBoth.streams id hId]
    · rw [getElem?_skip hId']

/-- **What somebody else does makes no difference to what a party finds.** Things may have been
made, and none of them are open to the party. -/
theorem Mirrors.of_sameFor (h : Mirrors owners me first ρ w v) (hSame : v.SameFor owners me v')
    (hActive : v'.active = v.active) (hGrows : v.supply ≤ v'.supply) (hFits : v'.Fits owners) :
    Mirrors owners me first ρ w v' where
  inside := h.inside.mono hGrows
  within := h.within
  built := h.built
  shadow ρ' hExtends := by
    obtain ⟨u, hRenamed, hAgrees⟩ := h.shadow ρ' (hExtends.mono hGrows)
    have hSupply : u.supply ≤ v'.supply := hAgrees.supply ▸ hGrows
    exact ⟨u.skipTo v', hRenamed.skipTo hSupply hExtends.beyond,
      hAgrees.skipTo hSame hActive hGrows hFits⟩

end World

/-- Of two programs that are alike one has ended with a renamed result if the other one has ended.
-/
theorem Program.Alike.of_ret_right {ρ : Renaming} {last : Supply} {known : Value → Prop} {α : Type}
    {c : Contents α} {p : Program α} {b : α} (h : Program.Alike ρ last known c p (.ret b)) :
    ∃ a, p = .ret a ∧ b = c.rename ρ a := by
  cases h with
  | ret _ hSame => exact ⟨_, rfl, hSame⟩

/-- Of two programs that are alike both have ended or none. -/
theorem Program.Alike.isSome_answer? {ρ : Renaming} {last : Supply} {known : Value → Prop}
    {α : Type} {content : Contents α} {c d : Config α}
    (h : Program.Alike ρ last known content c.program d.program) :
    c.answer?.isSome = d.answer?.isSome := by
  obtain ⟨p, w⟩ := c
  obtain ⟨q, v⟩ := d
  cases h <;> rfl

-- ---------------------------------------------------------------------------
-- Turns
-- ---------------------------------------------------------------------------

/-- Whether a step of a session tells a party what another one does, up to a renaming: the outcome,
and the entries of the log, as far as the party may look up the names that machines were bound
to. -/
structure Step.SameFor (owners : Owners ι) (me : ι) (ρ : Renaming) (s s' : Step) : Prop where
  outcome : s'.outcome = mapOutcome (Fault.rename ρ) (Reply.rename ρ) s.outcome
  log : List.Forall₂ (fun e e' => (e.rename ρ).SameFor owners me e') s.log.toList s'.log.toList

namespace Session

/-- Whether a turn of a party keeps apart from everybody else. What is made in it belongs to the
party. -/
structure Turn (functions : Functions) (owners : Owners ι) (me : ι) (v : World) (i : Instruction)
    (s : Step) : Prop where
  apart : (Config.begin (Run.perform .outermost i) v).KeepsApart functions.handler owners me
  makes : v.Makes owners me s.world

variable {functions : Functions} {limit : Nat} {owners : Owners ι} {me you : ι} {first : Nat}
  {w v : World} {i : Instruction} {s : Step} {ρ : Renaming}

/-- In a turn no names of others are bound or dropped, and none of the party are bound to machines
of others. -/
theorem Turn.fits (hTurn : Turn functions owners you v i s) (h : step functions limit v i = some s)
    (hFits : v.Fits owners) : s.world.Fits owners := by
  obtain ⟨n, hAfter⟩ := step_ends h
  have hEnd := (Config.agrees_after hTurn.apart rfl (World.Agrees.refl owners you hFits) n).2
  rw [hAfter] at hEnd
  exact hEnd.fits

/-- **A turn of somebody else** makes no difference to a party. -/
theorem Turn.other (hTurn : Turn functions owners you v i s) (hOther : me ≠ you)
    (h : step functions limit v i = some s) (hMirrors : w.Mirrors owners me first ρ v)
    (hFits : v.Fits owners) : w.Mirrors owners me first ρ s.world := by
  obtain ⟨hGrows, hActive⟩ := step_tidy h
  have hSame := hTurn.apart.sameFor (step_ends h) hTurn.makes hOther
  exact hMirrors.of_sameFor hSame hActive hGrows (hTurn.fits h hFits)

/-- What a party does alone keeps step with what it does in its turn, up to a renaming by which what
is made next corresponds. -/
theorem after_of_mirrors
    (hApart : (Config.begin (Run.perform .outermost i) v).KeepsApart functions.handler owners me)
    (hFunctions : functions.Bare) (hInstruction : i.Bare)
    (hMirrors : w.Mirrors owners me first ρ v) (n : Nat) {ρ' : Renaming}
    (hExtends : ρ.Extends w.supply v.supply ρ') {last : Supply}
    (hShifts : ρ'.Shifts w.supply v.supply last) :
    let c := (Config.begin (Run.perform .outermost i) w).after .standard functions.handler n
    let d := (Config.begin (Run.perform .outermost i) v).after .standard functions.handler n
    c.world.supply ≤ last →
      c.world.Within (Value.IsBelow (last .machine)) ∧
      Program.Alike ρ' last (Value.IsBelow (last .machine)) Contents.reply.outcome c.program
        d.program ∧
      ∃ (base : List LogEntry) (u : World), base.length = v.log.size ∧
        World.Renamed ρ' last w.log.toList base c.world u ∧ u.Agrees owners me d.world := by
  intro c d hLast
  obtain ⟨u, hRenamed, hAgrees⟩ := hMirrors.shadow ρ' hExtends
  -- what is done in the world is done in its shadow as well
  have hSameProgram : (Config.begin (Run.perform .outermost i) u).program =
    (Config.begin (Run.perform .outermost i) v).program := rfl
  obtain ⟨hProgram, hAfter⟩ := Config.agrees_after hApart hSameProgram hAgrees.symm n
  -- and what is done in the shadow is done alone, with other numbers
  have hScope := Renaming.scope_below ρ' last
  -- nothing that was made goes, so there was less at the beginning
  have hMade : w.supply ≤ last :=
    (((Run.perform_tidy .outermost i).after functions.handler_tidy w n).choose_spec.2.1).trans hLast
  obtain ⟨hWithin, q, hRest, hSame⟩ :=
    Program.Alike.after
      (Functions.handler_alike hScope fun name v hv => hFunctions name v hv ρ' _)
      functions.handler_tidy
      (Run.perform_alike hScope (Frame.within_outermost _) fun v hv => hInstruction v hv ρ' _)
      (Run.perform_tidy .outermost i) (hMirrors.within last hMade) n hLast
  obtain ⟨v', hShadow, hRenamed'⟩ := hSame (hRenamed.raise (by rwa [← hAgrees.supply]))
  have hEnd : (Config.begin (Run.perform .outermost i) u).after .standard functions.handler n =
      { program := q, world := v' } := hShadow
  rw [hEnd] at hProgram hAfter
  obtain rfl : q = d.program := hProgram
  have hLength : u.log.toList.length = v.log.size := hAgrees.log.length_eq.trans (by simp)
  exact ⟨hWithin, hRest, _, v', hLength, hRenamed', hAfter.symm⟩

/-- What is done in a turn ends in as many steps as when it is done alone, or in neither. -/
theorem step_isSome_of_mirrors
    (hApart : (Config.begin (Run.perform .outermost i) v).KeepsApart functions.handler owners me)
    (hFunctions : functions.Bare) (hInstruction : i.Bare)
    (hMirrors : w.Mirrors owners me first ρ v) (limit : Nat) :
    (step functions limit w i).isSome = (step functions limit v i).isSome := by
  have hInside := hMirrors.inside
  obtain ⟨-, hAlike, -⟩ := after_of_mirrors hApart hFunctions hInstruction hMirrors limit
    hInside.extends_onward (hInside.onward_shifts _) (le_refl _)
  simp only [step, Option.isSome_map]
  exact hAlike.isSome_answer?

/-- **A turn of the party** comes to the same when the party is alone. -/
theorem Turn.own (hTurn : Turn functions owners me v i s) (hFunctions : functions.Bare)
    (hInstruction : i.Bare) (h : step functions limit v i = some s)
    (hMirrors : w.Mirrors owners me first ρ v) :
    ∃ (s₀ : Step) (ρ₁ : Renaming), step functions limit w i = some s₀ ∧
      s₀.world.Mirrors owners me first ρ₁ s.world ∧
      ∀ ρ', ρ₁.Extends s₀.world.supply s.world.supply ρ' →
        ρ.Extends w.supply v.supply ρ' ∧ s₀.SameFor owners me ρ' s := by
  let c := (Config.begin (Run.perform .outermost i) w).after .standard functions.handler limit
  obtain ⟨hGrows', -⟩ := step_tidy h
  have hInside := hMirrors.inside
  have hSame {ρ' : Renaming} (hExtends : ρ.Extends w.supply v.supply ρ') {last : Supply}
      (hShifts : ρ'.Shifts w.supply v.supply last) (hLast : c.world.supply ≤ last) :
      c.world.Within (Value.IsBelow (last .machine)) ∧
      (∃ a, c.program = .ret a ∧ s.outcome = mapOutcome (Fault.rename ρ') (Reply.rename ρ') a) ∧
      ∃ (base : List LogEntry) (u : World), base.length = v.log.size ∧
        World.Renamed ρ' last w.log.toList base c.world u ∧ u.Agrees owners me s.world := by
    obtain ⟨hWithin, hAlike, hWorlds⟩ := after_of_mirrors hTurn.apart hFunctions hInstruction
      hMirrors limit hExtends hShifts hLast
    rw [(step_endsBy h).1] at hAlike hWorlds
    exact ⟨hWithin, hAlike.of_ret_right, hWorlds⟩
  -- one number more than was made alone tells how many were made in the turn
  let next : Supply := fun kind => c.world.supply kind + 1
  obtain ⟨-, ⟨a, hAnswer, -⟩, base, u, -, hRenamed, hAgrees⟩ :=
    hSame hInside.extends_onward (hInside.onward_shifts next) fun kind => Nat.le_succ _
  have hStep : step functions limit w i = some
      { outcome := a, world := c.world, log := c.world.log.extract w.log.size } :=
    step_of_endsBy (congrArg (Config.mk · c.world) hAnswer)
  have hGrows : w.supply ≤ c.world.supply := (step_tidy hStep).1
  have hNext (kind : Numbered) :
      hInside.onward kind (c.world.supply kind) = s.world.supply kind := by
    rw [hAgrees.supply]
    cases kind with
    | nan => exact hRenamed.nans 0 (Nat.lt_succ_self _)
    | stream => exact hRenamed.streams.next 0 (Nat.lt_succ_self _)
    | machine => exact hRenamed.machines.next 0 (Nat.lt_succ_self _)
  refine ⟨_, hInside.onward, hStep,
    { inside := hInside.onward_inside hGrows hNext
      within := fun last hLast =>
        (hSame hInside.extends_onward (hInside.onward_shifts last) hLast).1
      built := fun m hm hBuilt => ?built
      shadow := fun ρ' hExtends => ?shadow }, fun ρ' hExtends => ?same⟩
  case built =>
    rcases Nat.lt_or_ge m w.machines.length with hOld | hNew
    · have hKept : hInside.onward .machine m = ρ .machine m := hInside.onward_of_lt hOld
      rw [hKept]
      exact hMirrors.built m hm hOld
    · refine hTurn.makes.machines _ (hInside.extends_onward.beyond .machine m hNew) ?_
      exact (hInside.onward_inside hGrows hNext).lt .machine m hBuilt
  all_goals
    obtain ⟨hBefore, hShifts⟩ := hInside.extends_of_onward hGrows hGrows' hExtends
    obtain ⟨-, ⟨a', hAnswer', hOutcome⟩, base, u, hBase, hRenamed, hAgrees⟩ :=
      hSame hBefore hShifts (le_refl _)
  case shadow => exact ⟨u, hRenamed.rebase, hAgrees⟩
  case same =>
    obtain rfl : a = a' := Program.ret.inj (hAnswer.symm.trans hAnswer')
    refine ⟨hBefore, hOutcome, ?_⟩
    obtain ⟨entries, hLog, hLog'⟩ := hRenamed.log
    have hEntries := List.forall₂_drop v.log.size hAgrees.log
    rw [hLog', List.drop_left' hBase] at hEntries
    rw [toList_extract hLog, (step_endsBy h).2, toList_since]
    exact List.forall₂_map_left_iff.mp hEntries

-- ---------------------------------------------------------------------------
-- Taking turns
-- ---------------------------------------------------------------------------

/-- What is a party's of what the parties take turns with. -/
def turnsOf {α : Type} (me : ι) (turns : List (ι × α)) : List α :=
  (turns.filter fun turn => turn.1 = me).map Prod.snd

/-- A turn of one's own is the first of one's turns. -/
theorem turnsOf_cons_self {α : Type} (me : ι) (a : α) (rest : List (ι × α)) :
    turnsOf me ((me, a) :: rest) = a :: turnsOf me rest := by
  simp [turnsOf]

/-- A turn of somebody else is none of them. -/
theorem turnsOf_cons_ne {α : Type} (h : you ≠ me) (a : α) (rest : List (ι × α)) :
    turnsOf me ((you, a) :: rest) = turnsOf me rest := by
  simp [turnsOf, h]

/-- Whether every turn keeps apart from everybody but whoever takes it. -/
def KeepApart (functions : Functions) (owners : Owners ι) :
    World → List (ι × Instruction) → List Step → Prop
  | v, (me, i) :: rest, s :: steps =>
    Turn functions owners me v i s ∧ KeepApart functions owners s.world rest steps
  | _, _, _ => True

/-- **Whoever takes turns with others does what they would do alone,** from a world on that mirrors
the one in which they are alone. -/
theorem alone_of_mirrors {turns : List (ι × Instruction)} {steps : List Step}
    (hFunctions : functions.Bare) (hTurns : ∀ turn ∈ turns, turn.2.Bare)
    (h : runFrom functions limit v (turns.map Prod.snd) = some steps)
    (hApart : KeepApart functions owners v turns steps) (hFits : v.Fits owners)
    (hMirrors : w.Mirrors owners me first ρ v) :
    ∃ (alone : List Step) (ρ₁ : Renaming),
      runFrom functions limit w (turnsOf me turns) = some alone ∧
      (lastWorld w alone).Mirrors owners me first ρ₁ (lastWorld v steps) ∧
      ∀ ρ', ρ₁.Extends (lastWorld w alone).supply (lastWorld v steps).supply ρ' →
        ρ.Extends w.supply v.supply ρ' ∧
          List.Forall₂ (Step.SameFor owners me ρ') alone
            (turnsOf me ((turns.map Prod.fst).zip steps)) := by
  induction turns generalizing v w ρ steps with
  | nil =>
    obtain rfl := Option.some.inj h
    exact ⟨[], ρ, rfl, hMirrors, fun ρ' hExtends => ⟨hExtends, .nil⟩⟩
  | cons turn rest ih =>
    obtain ⟨party, i⟩ := turn
    obtain ⟨s, others, hFirst, hOthers, rfl⟩ := runFrom_cons h
    obtain ⟨hBare, hRest⟩ := List.forall_mem_cons.mp hTurns
    obtain ⟨hTurn, hApart⟩ := hApart
    have hFits' := hTurn.fits hFirst hFits
    -- a turn of the party is a step of both sessions, and any other turn is a step of one of them
    by_cases hMine : party = me
    · subst hMine
      obtain ⟨s₀, ρ₁, hStep, hMirrors', hSame⟩ := hTurn.own hFunctions hBare hFirst hMirrors
      obtain ⟨alone, ρ₂, hAlone, hEnd, hSteps⟩ := ih hRest hOthers hApart hFits' hMirrors'
      refine ⟨s₀ :: alone, ρ₂, ?_, hEnd, fun ρ' hExtends => ?_⟩
      · rw [turnsOf_cons_self]
        exact runFrom_of_cons hStep hAlone
      · obtain ⟨hExtends', hSteps⟩ := hSteps ρ' hExtends
        obtain ⟨hExtends, hOwn⟩ := hSame ρ' hExtends'
        rw [List.map_cons, List.zip_cons_cons, turnsOf_cons_self]
        exact ⟨hExtends, .cons hOwn hSteps⟩
    · have hGrows := (step_tidy hFirst).1
      have hMirrors' := hTurn.other (Ne.symm hMine) hFirst hMirrors hFits
      obtain ⟨alone, ρ₂, hAlone, hEnd, hSteps⟩ := ih hRest hOthers hApart hFits' hMirrors'
      rw [turnsOf_cons_ne hMine, List.map_cons, List.zip_cons_cons, turnsOf_cons_ne hMine]
      refine ⟨alone, ρ₂, hAlone, hEnd, fun ρ' hExtends => ?_⟩
      obtain ⟨hExtends, hSteps⟩ := hSteps ρ' hExtends
      exact ⟨hExtends.mono hGrows, hSteps⟩

/-- What a session has made mirrors itself. -/
theorem mirrors_self {setup : List Instruction} {before : List Step} (hFunctions : functions.Bare)
    (hSetup : ∀ i ∈ setup, i.Bare) (h : runFrom functions limit .empty setup = some before)
    (owners : Owners ι) (me : ι) (hFits : (lastWorld .empty before).Fits owners) :
    (lastWorld .empty before).Mirrors owners me (lastWorld .empty before).machines.length .identity
      (lastWorld .empty before) where
  inside := Renaming.inside_identity (le_refl _)
  within last hLast :=
    (runFrom_renamed (Renaming.scope_below .identity last)
      (fun name v hv => hFunctions name v hv _ _)
      (fun i hi v hv => hSetup i hi v hv _ _) World.within_empty h hLast).1
  built _ hm hBuilt := absurd hBuilt (Nat.not_lt.mpr hm)
  shadow ρ' hExtends :=
    ⟨lastWorld .empty before,
      renamed_self (Renaming.scope_below ρ' _) (fun name v hv => hFunctions name v hv _ _)
        (fun i hi v hv => hSetup i hi v hv _ _) h hExtends.same (le_refl _),
      .refl owners me hFits⟩

/-- **Parties that keep apart have nothing to do with each other.** A session has come to some
world, in which the names of each party are bound only to its own machines, and from there on
parties take turns, each with instructions of its own. They may build machines, bind them to names
and drop them, start and move them and write to the log. If every turn keeps apart from everybody
but whoever takes it, then the instructions of each party, performed without those of the others,
end as well: each has the same outcome as in its turn and leaves the same entries in the log. In the
end the machines of the party are the same, with their current states, histories, slots, positions,
notes and options: those that it had, and those that it has built, which are its own in its turns as
well. And its names are bound to the same ones. NaNs, streams and machines that were made in turns
have other numbers, and nothing else is different. What the party does next ends in both cases or in
none. -/
theorem alone {setup : List Instruction} {before : List Step} {turns : List (ι × Instruction)}
    {steps : List Step} (hFunctions : functions.Bare) (hSetup : ∀ i ∈ setup, i.Bare)
    (hTurns : ∀ turn ∈ turns, turn.2.Bare)
    (hBefore : runFrom functions limit .empty setup = some before)
    (hw : lastWorld .empty before = w) (hFits : w.Fits owners)
    (hRun : runFrom functions limit w (turns.map Prod.snd) = some steps)
    (hApart : KeepApart functions owners w turns steps) (me : ι) :
    ∃ (ρ : Renaming) (alone : List Step),
      ρ.Keeps w.supply ∧
      runFrom functions limit w (turnsOf me turns) = some alone ∧
      List.Forall₂ (Step.SameFor owners me ρ) alone (turnsOf me ((turns.map Prod.fst).zip steps)) ∧
      (∀ m, isOpenTo me (owners.machine (ρ .machine m)) = true →
        (lastWorld w steps).machine (ρ .machine m) = ((lastWorld w alone).machine m).rename ρ) ∧
      (∀ m, w.machines.length ≤ m → m < (lastWorld w alone).machines.length →
        owners.machine (ρ .machine m) = some me) ∧
      (∀ id, isOpenTo me (owners.bound id) = true →
        (lastWorld w steps).bound.get? id =
          ((lastWorld w alone).bound.get? id).map (ρ .machine)) ∧
      ∀ i : Instruction, i.Bare →
        (Config.begin (Run.perform .outermost i) (lastWorld w steps)).KeepsApart
          functions.handler owners me →
        (step functions limit (lastWorld w alone) i).isSome =
          (step functions limit (lastWorld w steps) i).isSome := by
  subst hw
  have hSelf := mirrors_self hFunctions hSetup hBefore owners me hFits
  obtain ⟨alone, ρ, hAlone, hEnd, hSteps⟩ :=
    alone_of_mirrors hFunctions hTurns hRun hApart hFits hSelf
  have hExtends := hEnd.inside.extends_onward
  obtain ⟨hKeeps, hSteps⟩ := hSteps _ hExtends
  refine ⟨_, alone, hKeeps.same, hAlone, hSteps, fun m hm => hEnd.machine hExtends hm,
    fun m hm hBuilt => ?_, fun id hId => hEnd.bound hExtends hId,
    fun i hInstruction hApart => step_isSome_of_mirrors hApart hFunctions hInstruction hEnd limit⟩
  have hKept : hEnd.inside.onward .machine m = ρ .machine m := hEnd.inside.onward_of_lt hBuilt
  rw [hKept]
  exact hEnd.built m hm hBuilt

-- ---------------------------------------------------------------------------
-- Two lights
-- ---------------------------------------------------------------------------

/-- A light that goes on and off. -/
def blinker : Value :=
  .map
    [(.text "dark", .map [(.text "rules", .map [(.text "lit", .function "flips")])]),
      (.text "lit", .map [(.text "do", .function "glows"),
        (.text "rules", .map [(.text "dark", .function "flips")])])]

/-- A light that glows puts a new NaN into its own slot. -/
def blinking : Functions
  | "flips" => { body := [], result := .constant (.bool true) }
  | "glows" =>
    { body := [.plain none (.onMachine (.assignCurrent .result .nan))]
      result := .constant .null }
  | _ => .empty

/-- Two lights that are made from one table. -/
def lights : List Instruction :=
  [.plain (some "left") (.build (.constant blinker) none),
    .plain (some "right") (.build (.constant blinker) none)]

/-- The world in which both lights have been made and none is on. -/
def shining : World := lastWorld .empty (stepsOf blinking .empty lights)

/-- A light with one state. -/
def candle (name : String) : Value := .list [.tuple [.text name, .null]]

/-- Who uses which light. Candles are made later, one by the right side and then one by the left
one. -/
def sides : Owners String where
  machine m := if m = 0 ∨ m = 3 then some "left" else some "right"
  bound id := if id = "left" ∨ id = "candle" then some "left" else some "right"
  held _ := none
  stepper _ := none
  stream _ := none

/-- Both lights are started and switched in turn. Candles are made in between, and the right side
drops its own. -/
def blinks : List (String × Instruction) :=
  [("left", .plain (some "left") (.onMachine .start)),
    ("right", .plain (some "torch") (.build (.constant (candle "wax")) none)),
    ("right", .plain (some "right") (.onMachine .start)),
    ("left", .plain (some "candle") (.build (.constant (candle "tallow")) none)),
    ("right", .plain (some "torch") .drop),
    ("left", .plain (some "candle") (.onMachine .start)),
    ("right", .plain (some "right") (.onMachine (.switch []))),
    ("left", .plain (some "left") (.onMachine (.switch [])))]

/-- A value that no renaming changes and that mentions nothing has nothing with a number in it. -/
theorem bare_of_detached {v : Value} (hSame : ∀ ρ, v.rename ρ = v) (h : v.detached = true) :
    v.Bare :=
  fun ρ _ => ⟨hSame ρ, Value.within_of_detached h⟩

/-- The functions of the lights have no constants but truth values and null. -/
theorem blinking_bare : blinking.Bare := by
  intro name v hv
  unfold blinking at hv
  split at hv
  all_goals
    obtain rfl := List.mem_singleton.mp hv
    exact bare_of_detached (fun _ => rfl) rfl

end Session

-- Whether it can be seen that a step keeps apart.

/-- Whether nothing that is written mentions a machine or a state. -/
def Primitive.isQuiet {β : Type} (p : Primitive β) (w : World) : Bool :=
  Value.allDetached (p.written w) &&
    match (p.effect w).1 with
    | .ok _ => true
    | .error cause => Value.allDetached cause.values

/-- Whether a table is one of a single state without a definition, named by a text. -/
def Value.isCandle (table : Value) : Bool :=
  match table with
  | list [tuple [text _, null]] => true
  | _ => false

/-- Whether a primitive operation reads nothing but candles. -/
def Primitive.readsCandles {β : Type} (p : Primitive β) : Bool :=
  match p with
  | .read _ => false
  | .construct table => table.isCandle
  | _ => true

/-- Reading a candle takes nothing from streams. -/
theorem Value.takesOwn_of_isCandle {table : Value} (h : table.isCandle = true) (owners : Owners ι)
    (me : ι) (self : MachineRef) (s : Streams) : (readTable self table).TakesOwn owners me s := by
  have hSame (s : Streams) : (readTable self table).result s =
      (((readTable self table).result { left := [] }).1, s) := by
    unfold isCandle at h
    split at h
    · rfl
    · cases h
  refine ⟨by rw [hSame], fun id _ => by rw [hSame], fun s' hCount hOwn => ?_⟩
  rw [hSame s', hSame s]
  exact ⟨rfl, hCount, hOwn⟩

/-- Values that mention nothing show no machine. -/
theorem World.discloses_of_detached {w : World} {owners : Owners ι} {me : ι} {values : List Value}
    (h : Value.allDetached values = true) : w.Discloses owners me values := by
  intro v hv m hm
  have hDetached := Value.allDetached_iff.mp h v hv
  exact absurd hm (World.not_mentions ((Value.detached_iff v).mp hDetached))

/-- Who looks and changes within bounds, reads candles only and writes no reference keeps apart. -/
theorem Primitive.keepsApart_of_quiet {β : Type} {p : Primitive β} {w : World} {owners : Owners ι}
    {me : ι} (hWithin : p.within owners me = true) (hCandles : p.readsCandles = true)
    (hQuiet : p.isQuiet w = true) : p.KeepsApart owners me w := by
  obtain ⟨hWritten, hFailures⟩ := Bool.and_eq_true_iff.mp hQuiet
  refine ⟨hWithin, ?_, World.discloses_of_detached hWritten, fun cause hFails => ?_⟩
  · cases p with
    | read r => cases hCandles
    | construct table => exact Value.takesOwn_of_isCandle hCandles owners me _ _
    | _ => trivial
  · rw [hFails] at hFailures
    exact World.discloses_of_detached hFailures

namespace Config

section

variable (owners : Owners ι) (me : ι) {α : Type} (c : Config α)

/-- Whether the next step looks at nothing and changes nothing that belongs to others. -/
def isWithin : Bool :=
  match c.program with
  | .perform p _ => p.within owners me
  | _ => true

/-- Whether it also writes nothing of machines, and reads nothing but candles. -/
def isApart : Bool :=
  match c.program with
  | .perform p _ => p.within owners me && p.readsCandles && p.isQuiet c.world
  | _ => true

end

variable {handler : Handler} {owners : Owners ι} {me : ι} {α : Type} {c : Config α}

/-- What is so at the moments up to the end is so at every moment. -/
theorem after_of_le {P : Config α → Prop} (last : Nat)
    (hEnd : (c.after .standard handler last).answer?.isSome = true)
    (h : ∀ n ≤ last, P (c.after .standard handler n)) {c' : Config α}
    (hLeads : c.Leads handler c') : P c' := by
  obtain ⟨n, rfl⟩ := hLeads
  rcases Nat.le_total n last with hLe | hLe
  · exact h n hLe
  · rw [after_of_ended hEnd hLe]
    exact h last (Nat.le_refl last)

/-- An execution that ends has few moments, and each of them can be looked at. -/
theorem keepsApart_of_le (last : Nat)
    (hEnd : (c.after .standard handler last).answer?.isSome = true)
    (h : ∀ n ≤ last, (c.after .standard handler n).isApart owners me = true) :
    c.KeepsApart handler owners me := by
  intro c' hLeads β p next hProgram
  have hHere : c'.isApart owners me = true :=
    after_of_le (P := fun c => c.isApart owners me = true) last hEnd h hLeads
  rw [isApart, hProgram, Bool.and_eq_true, Bool.and_eq_true] at hHere
  exact Primitive.keepsApart_of_quiet hHere.1.1 hHere.1.2 hHere.2

end Config

namespace Session

variable {functions : Functions} {owners : Owners ι} {v : World}

/-- Whether what is made between two worlds is seen to belong to a party. -/
def makesOwn (owners : Owners ι) (me : ι) (w w' : World) : Bool :=
  w'.streams.left.length == w.streams.left.length &&
    (List.range w'.machines.length).all fun m =>
      m < w.machines.length || owners.machine m = some me

/-- What has been made can be looked at as well. -/
theorem makes_of_makesOwn {me : ι} {w w' : World} (h : makesOwn owners me w w' = true) :
    w.Makes owners me w' := by
  simp only [makesOwn, Bool.and_eq_true, beq_iff_eq, List.all_eq_true, List.mem_range,
    Bool.or_eq_true, decide_eq_true_eq] at h
  refine ⟨fun m hm hm' => (h.2 m hm').resolve_left (Nat.not_lt.mpr hm), fun id hId hId' => ?_⟩
  rw [h.1] at hId'
  exact absurd hId' (Nat.not_lt.mpr hId)

/-- Whether every turn is seen to keep apart, in a number of steps in which it ends. -/
def staysApart (functions : Functions) (owners : Owners ι) (last : Nat) :
    World → List (ι × Instruction) → List Step → Bool
  | v, (me, i) :: rest, s :: steps =>
    let c := Config.begin (Run.perform .outermost i) v
    let moment (n : Nat) := c.after .standard functions.handler n
    (moment last).answer?.isSome &&
      (List.range (last + 1)).all (fun n => (moment n).isApart owners me) &&
      makesOwn owners me v s.world && staysApart functions owners last s.world rest steps
  | _, _, _ => true

/-- So turns that end are seen to keep apart by executing them. -/
theorem keepApart_of_staysApart {last : Nat} {turns : List (ι × Instruction)} {steps : List Step}
    (h : staysApart functions owners last v turns steps = true) :
    KeepApart functions owners v turns steps := by
  induction turns generalizing v steps with
  | nil => trivial
  | cons turn rest ih =>
    obtain ⟨me, i⟩ := turn
    cases steps with
    | nil => trivial
    | cons s steps =>
      simp only [staysApart, Bool.and_eq_true, List.all_eq_true, List.mem_range] at h
      obtain ⟨⟨⟨hEnd, hApart⟩, hMakes⟩, hRest⟩ := h
      have hKeeps := Config.keepsApart_of_le last hEnd fun n hn => hApart n (Nat.lt_succ_of_le hn)
      exact ⟨⟨hKeeps, makes_of_makesOwn hMakes⟩, ih hRest⟩

/-- Both lights go on in turn, and each side makes a candle. The left one does what it does without
the right one, and its candle is there as well. -/
theorem alone_lights :
    ∃ (steps alone : List Step) (ρ : Renaming),
      runFrom blinking 100 shining (blinks.map Prod.snd) = some steps ∧
      steps.map (fun s => s.log.size) = [1, 1, 1, 1, 0, 1, 5, 5] ∧
      runFrom blinking 100 shining (turnsOf "left" blinks) = some alone ∧
      List.Forall₂ (Step.SameFor sides "left" ρ) alone
        (turnsOf "left" ((blinks.map Prod.fst).zip steps)) ∧
      (lastWorld shining steps).machine 0 = ((lastWorld shining alone).machine 0).rename ρ ∧
      (lastWorld shining steps).machine 3 = ((lastWorld shining alone).machine 2).rename ρ := by
  have hLights : ∀ i ∈ lights, i.Bare := by
    intro i hi v hv
    have hConstants : v ∈ lights.flatMap Instruction.constants := List.mem_flatMap.mpr ⟨i, hi, hv⟩
    have hBlinker : lights.flatMap Instruction.constants = List.replicate 2 blinker := rfl
    rw [hBlinker] at hConstants
    obtain rfl := List.eq_of_mem_replicate hConstants
    exact bare_of_detached (fun _ => rfl) rfl
  have hBlinks : ∀ turn ∈ blinks, turn.2.Bare := by
    intro turn hTurn v hv
    have hConstants : v ∈ (blinks.map Prod.snd).flatMap Instruction.constants :=
      List.mem_flatMap.mpr ⟨turn.2, List.mem_map_of_mem hTurn, hv⟩
    have hCandles : (blinks.map Prod.snd).flatMap Instruction.constants =
      [candle "wax", candle "tallow"] := rfl
    rw [hCandles] at hConstants
    rcases List.mem_cons.mp hConstants with rfl | hConstants
    · exact bare_of_detached (fun _ => rfl) rfl
    · obtain rfl := List.mem_singleton.mp hConstants
      exact bare_of_detached (fun _ => rfl) rfl
  have hBefore := runFrom_stepsOf
    (show (runFrom blinking 100 .empty lights).isSome = true by decide +kernel)
  have hRun := runFrom_stepsOf
    (show (runFrom blinking 100 shining (blinks.map Prod.snd)).isSome = true by decide +kernel)
  have hFits : shining.Fits sides := by
    unfold World.Fits
    decide +kernel
  have hApart := keepApart_of_staysApart
    (show staysApart blinking sides 30 shining blinks
      (stepsOf blinking shining (blinks.map Prod.snd)) = true by decide +kernel)
  obtain ⟨ρ, alone, hKeeps, hAlone, hSteps, hMachine, hBuilt, -, -⟩ :=
    alone blinking_bare hLights hBlinks hBefore rfl hFits hRun hApart "left"
  have hAlone' := runFrom_stepsOf
    (show (runFrom blinking 100 shining (turnsOf "left" blinks)).isSome = true by decide +kernel)
  have hThree : (lastWorld shining alone).machines.length = 3 := by
    obtain rfl := Option.some.inj (hAlone.symm.trans hAlone')
    decide +kernel
  have hFirst : ρ .machine 0 = 0 := hKeeps .machine 0 (by decide +kernel)
  -- the candle is not the first machine, so it is the other one of the left side
  have hCandle : ρ .machine 2 = 3 := by
    have hOwn : sides.machine (ρ .machine 2) = some "left" :=
      hBuilt 2 (by decide +kernel) (Nat.lt_of_lt_of_eq (by decide) hThree.symm)
    have hNe : ρ .machine 2 ≠ 0 := fun hSame =>
      absurd ((ρ .machine).injective (hSame.trans hFirst.symm)) (by decide)
    simp only [sides] at hOwn
    split at hOwn
    · rename_i h
      exact h.resolve_left hNe
    · exact absurd (Option.some.inj hOwn) (by decide)
  have hLight := hMachine 0 (by rw [hFirst]; decide)
  have hTallow := hMachine 2 (by rw [hCandle]; decide)
  rw [hFirst] at hLight
  rw [hCandle] at hTallow
  exact ⟨_, alone, ρ, hRun, by decide +kernel, hAlone, hSteps, hLight, hTallow⟩

-- ---------------------------------------------------------------------------
-- Sides that are not apart
-- ---------------------------------------------------------------------------

/-- What comes of instructions that are performed after others, if they end in time. -/
def stepsAfter (functions : Functions) (setup instructions : List Instruction) : List Step :=
  stepsOf functions (lastWorld .empty (stepsOf functions .empty setup)) instructions

/-- What machines record in each step. -/
def recordsOf (steps : List Step) : List (List Record) :=
  steps.map fun s => s.log.toList.filterMap fun entry =>
    match entry.event with
    | .record _ r => some r
    | _ => none

/-- A state with a function that is called when it is entered. -/
def stateEntry (name : Expr) (function : Value) : Expr :=
  .tuple [name, .constant (.map [(.text "on_enter", function)])]

/-- A machine on the left, and one on the right that has a portrait of it for a state. -/
def portrait : List Instruction :=
  [.plain (some "left") (.build (.list [stateEntry (.constant (.text "x")) .null]) none),
    .plain (some "right") (.build
      (.list [stateEntry (.apply .machine [.constant (.text "left")]) .null]) none)]

/-- A machine on the left that builds a spare one and starts it later, and one on the right that
builds another under the same name. -/
def spares : List Instruction :=
  [.plain (some "left") (.build (.list
      [stateEntry (.constant (.text "x")) (.function "first"),
        stateEntry (.constant (.text "y")) (.function "use")]) none),
    .plain (some "right") (.build
      (.list [stateEntry (.constant (.text "z")) (.function "second")]) none)]

/-- The function of the left machine builds a spare one, that of the right machine builds another
under the same name, and the third one starts whatever is found under it. -/
def building : Functions
  | "first" =>
    { body :=
        [.plain (some "spare") (.build (.list [stateEntry (.constant (.text "p")) .null]) none)]
      result := .constant .null }
  | "second" =>
    { body :=
        [.plain (some "spare") (.build (.list [stateEntry (.constant (.text "q")) .null]) none)]
      result := .constant .null }
  | "use" => { body := [.plain (some "spare") (.onMachine .start)], result := .constant .null }
  | _ => .empty

/-- It is not enough that no side uses the machine or the kept values of the other. If the left
machine is started first, the right one records it in the text of its portrait, though each looks at
nothing and changes nothing but its own. And the spare machine that the left side starts is the one
that the right side has built in its place. -/
theorem not_always_alone :
    (let startLeft := Instruction.plain (some "left") (.onMachine .start)
     let startRight := Instruction.plain (some "right") (.onMachine .start)
     let beginning := lastWorld .empty (stepsAfter (fun _ => .empty) [] portrait)
     let started := lastWorld beginning (stepsAfter (fun _ => .empty) portrait [startLeft])
     let handler := Functions.handler fun _ => .empty
     (∀ c', (Config.begin (Run.perform .outermost startLeft) beginning).Leads handler c' →
       c'.isWithin sides "left" = true) ∧
     (∀ c', (Config.begin (Run.perform .outermost startRight) started).Leads handler c' →
       c'.isWithin sides "right" = true) ∧
     recordsOf (stepsAfter (fun _ => .empty) portrait [startLeft, startRight]) =
       [[.entered "x" 1], [.entered "Machine(states=1, current='x')" 1]] ∧
     recordsOf (stepsAfter (fun _ => .empty) portrait [startRight]) =
       [[.entered "Machine(states=1, current=None)" 1]]) ∧
    let startLeft := Instruction.plain (some "left") (.onMachine .start)
    let startRight := Instruction.plain (some "right") (.onMachine .start)
    let goOn := Instruction.plain (some "left") (.onMachine (.setState (.constant (.text "y"))))
    recordsOf (stepsAfter building spares [startLeft, startRight, goOn]) =
      [[.entered "x" 1, .built 1 0], [.entered "z" 1, .built 1 0],
        [.entered "y" 1, .entered "q" 1]] ∧
    recordsOf (stepsAfter building spares [startLeft, goOn]) =
      [[.entered "x" 1, .built 1 0], [.entered "y" 1, .entered "p" 1]] := by
  refine ⟨⟨fun c' => ?left, fun c' => ?right, by decide +kernel, by decide +kernel⟩,
    by decide +kernel, by decide +kernel⟩
  case left =>
    exact Config.after_of_le (P := fun c => c.isWithin sides "left" = true) 30
      (by decide +kernel) (by decide +kernel)
  case right =>
    exact Config.after_of_le (P := fun c => c.isWithin sides "right" = true) 30
      (by decide +kernel) (by decide +kernel)

end Session

end RuleMachine
