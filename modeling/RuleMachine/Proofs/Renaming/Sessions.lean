import RuleMachine.Proofs.Renaming.Programs
import RuleMachine.Proofs.Sessions

/-!
# Sessions under new numbers

The same instructions, performed in two worlds that differ by a renaming, have the same outcomes and
leave the same entries in the log, up to the renaming. Between two instructions no machine is in use
that was not in use before them.

* `Session.runFrom_tidy`: what is made during a session is there to stay.
* `Session.runFrom_renamed`: the same session in two worlds.
* `Session.renamed_self`: what a session has made mentions nothing that there is not.
-/

namespace RuleMachine

/-- Whether a renaming makes one step of a session what another is. -/
structure Step.Renamed (ρ : Renaming) (s s' : Step) : Prop where
  outcome : s'.outcome = mapOutcome (Fault.rename ρ) (Reply.rename ρ) s.outcome
  log : s'.log.toList = s.log.toList.map (LogEntry.rename ρ)

namespace World.Renamed

variable {ρ : Renaming} {last : Supply}

/-- Nothing more is left out of the logs than what has been logged by now. -/
theorem rebase {base base' : List LogEntry} {w w' : World} (h : Renamed ρ last base base' w w') :
    Renamed ρ last w.log.toList w'.log.toList w w' :=
  { h with log := ⟨[], (List.append_nil _).symm, (List.append_nil _).symm⟩ }

/-- In the beginning there is nothing that could have another number. -/
theorem empty (h : ρ.Keeps last) :
    Renamed ρ last World.empty.log.toList World.empty.log.toList .empty .empty := by
  have hFresh (kind : Numbered) (k : Nat) (hk : 0 + k < last kind) : ρ kind (0 + k) = 0 + k :=
    h kind (0 + k) hk
  exact
    { machines := ⟨fun _ => rfl, hFresh .machine⟩
      bound := rfl
      pinned := rfl
      active := rfl
      held := rfl
      steppers := rfl
      streams := ⟨fun _ => rfl, hFresh .stream⟩
      nans := hFresh .nan
      log := ⟨[], rfl, rfl⟩ }

end World.Renamed

namespace Session

variable {functions : Functions} {limit : Nat} {w : World}

/-- What was logged since there was a given number of entries. -/
theorem toList_since (log : Array LogEntry) (count : Nat) :
    (log.extract count).toList = log.toList.drop count := by
  rw [Array.toList_extract, List.extract_eq_take_drop, List.take_of_length_le]
  rw [List.length_drop, Array.length_toList]

/-- The entries that a step adds to the log are what was logged after the entries before it. -/
theorem toList_extract {log before : Array LogEntry} {entries : List LogEntry}
    (h : log.toList = before.toList ++ entries) :
    (log.extract before.size).toList = entries := by
  rw [toList_since, h, List.drop_left' Array.length_toList]

-- ---------------------------------------------------------------------------
-- What stays
-- ---------------------------------------------------------------------------

/-- An instruction takes nothing away, and leaves the machines in use as it found them. -/
theorem step_tidy {i : Instruction} {s : Step} (h : step functions limit w i = some s) :
    w.supply ≤ s.world.supply ∧ s.world.active = w.active := by
  obtain ⟨hEnd, -⟩ := step_endsBy h
  obtain ⟨level, hLeft, hGrows, hUse⟩ :=
    (Run.perform_tidy .outermost i).after functions.handler_tidy w limit
  have hMoment : Config.after .standard functions.handler limit
      { program := ExceptT.run (Run.perform .outermost i), world := w } =
        { program := .ret s.outcome, world := s.world } := hEnd
  rw [hMoment] at hLeft hGrows hUse
  -- the program has ended, so its level is zero
  obtain rfl := hLeft.of_ret
  exact ⟨hGrows, hUse⟩

/-- A session takes nothing away, and leaves no machine marked. -/
theorem runFrom_tidy {instructions : List Instruction} {steps : List Step}
    (h : runFrom functions limit w instructions = some steps) :
    w.supply ≤ (lastWorld w steps).supply ∧ (lastWorld w steps).active = w.active := by
  induction instructions generalizing w steps with
  | nil =>
    obtain rfl := Option.some.inj h
    exact ⟨le_refl _, rfl⟩
  | cons i rest ih =>
    obtain ⟨first, others, hFirst, hOthers, rfl⟩ := runFrom_cons h
    obtain ⟨hGrows, hUse⟩ := step_tidy hFirst
    obtain ⟨hGrows', hUse'⟩ := ih hOthers
    exact ⟨hGrows.trans hGrows', hUse'.trans hUse⟩

-- ---------------------------------------------------------------------------
-- Two worlds
-- ---------------------------------------------------------------------------

section

variable {ρ : Renaming} {last : Supply} {known : Value → Prop} (hScope : ρ.Scope last known)
  (hFunctions : ∀ name, ∀ v ∈ (functions name).constants, v.Fixed ρ known)
include hScope hFunctions

/-- **One instruction does the same in worlds that differ by a renaming,** and mentions only what is
known. -/
theorem step_renamed {i : Instruction} (hInstruction : ∀ v ∈ i.constants, v.Fixed ρ known)
    (hw : w.Within known) {s : Step} (h : step functions limit w i = some s)
    (hLast : s.world.supply ≤ last) :
    s.world.Within known ∧
      ∀ {w' : World}, World.Renamed ρ last w.log.toList w'.log.toList w w' →
        ∃ s', step functions limit w' i = some s' ∧ s.Renamed ρ s' ∧
          World.Renamed ρ last s.world.log.toList s'.world.log.toList s.world s'.world := by
  obtain ⟨hEnd, hLog⟩ := step_endsBy h
  have hMoment : Config.after .standard functions.handler limit
      { program := ExceptT.run (Run.perform .outermost i), world := w } =
        { program := .ret s.outcome, world := s.world } := hEnd
  obtain ⟨hWithin, q, hLeft, hSteps⟩ :=
    Program.Alike.after (Functions.handler_alike hScope hFunctions) functions.handler_tidy
      (Run.perform_alike hScope (Frame.within_outermost known) hInstruction)
      (Run.perform_tidy .outermost i) hw limit (by rw [hMoment]; exact hLast)
  rw [hMoment] at hWithin hLeft hSteps
  -- the program has ended, so the other one has ended as well
  obtain ⟨-, rfl⟩ := hLeft.of_ret
  refine ⟨hWithin, fun {w'} hRenamed => ?_⟩
  obtain ⟨v, hAfter, hv⟩ := hSteps hRenamed
  obtain ⟨entries, hEntries, hEntries'⟩ := hv.log
  refine ⟨_, step_of_endsBy hAfter, ⟨rfl, ?_⟩, hv.rebase⟩
  rw [hLog, toList_extract hEntries, toList_extract hEntries']

/-- **What one session does, another does in a world that differs by a renaming.** -/
theorem runFrom_renamed {instructions : List Instruction}
    (hInstructions : ∀ i ∈ instructions, ∀ v ∈ i.constants, v.Fixed ρ known)
    (hw : w.Within known) {steps : List Step}
    (h : runFrom functions limit w instructions = some steps)
    (hLast : (lastWorld w steps).supply ≤ last) :
    (lastWorld w steps).Within known ∧
      ∀ {w' : World}, World.Renamed ρ last w.log.toList w'.log.toList w w' →
        ∃ steps', runFrom functions limit w' instructions = some steps' ∧
          List.Forall₂ (Step.Renamed ρ) steps steps' ∧
          World.Renamed ρ last (lastWorld w steps).log.toList (lastWorld w' steps').log.toList
            (lastWorld w steps) (lastWorld w' steps') := by
  induction instructions generalizing w steps with
  | nil =>
    obtain rfl := Option.some.inj h
    exact ⟨hw, fun hRenamed => ⟨[], rfl, .nil, hRenamed⟩⟩
  | cons i rest ih =>
    obtain ⟨first, others, hFirst, hOthers, rfl⟩ := runFrom_cons h
    obtain ⟨hOwn, hRest⟩ := List.forall_mem_cons.mp hInstructions
    obtain ⟨hWithin, hSame⟩ := step_renamed hScope hFunctions hOwn hw hFirst
      ((runFrom_tidy hOthers).1.trans hLast)
    obtain ⟨hEnd, hSame'⟩ := ih hRest hWithin hOthers hLast
    refine ⟨hEnd, fun hRenamed => ?_⟩
    obtain ⟨first', hFirst', hAlike, hRenamed'⟩ := hSame hRenamed
    obtain ⟨others', hOthers', hAlike', hLastRenamed⟩ := hSame' hRenamed'
    exact ⟨first' :: others', runFrom_of_cons hFirst' hOthers', .cons hAlike hAlike', hLastRenamed⟩

/-- **Nothing mentions what there is not.** What a session has made stays as it is if everything
that there is keeps its number. -/
theorem renamed_self {instructions : List Instruction}
    (hInstructions : ∀ i ∈ instructions, ∀ v ∈ i.constants, v.Fixed ρ known) {steps : List Step}
    (h : runFrom functions limit .empty instructions = some steps)
    (hKeeps : ρ.Keeps last) (hLast : (lastWorld .empty steps).supply ≤ last) :
    World.Renamed ρ last (lastWorld .empty steps).log.toList (lastWorld .empty steps).log.toList
      (lastWorld .empty steps) (lastWorld .empty steps) := by
  obtain ⟨-, hSame⟩ :=
    runFrom_renamed hScope hFunctions hInstructions World.within_empty h hLast
  obtain ⟨steps', h', -, hEnd⟩ := hSame (.empty hKeeps)
  obtain rfl : steps = steps' := Option.some.inj (h.symm.trans h')
  exact hEnd

end

end Session

end RuleMachine
