import RuleMachine.Proofs.Renaming.Texts
import RuleMachine.World

/-!
# What values show

Values can mention machines and states, also as names of states. The text of a value shows, for each
state that it mentions, the name of that state, and for each machine the name of its current state;
and so it goes on with what these names mention. Nothing else of a world is shown.

So a value is written alike in two worlds if whatever is shown is alike in both. What a value
mentions may have other numbers in the one than in the other.

* `World.Mentions`: what is shown when a value is written.
* `World.ShownAlike`: when a machine or a state is shown alike in two worlds.
* `World.literal_alike`: values are written alike.
-/

namespace RuleMachine

/-- The machine that is mentioned, itself or by one of its states. -/
def Value.home? : Value → Option MachineRef
  | state s => some s.machine
  | machine m => some m
  | _ => none

namespace World

/-- The name of the current state of a machine, or null for none. -/
def currentName (w : World) (m : MachineRef) : Value := (w.machine m).currentName?.getD .null

/-- What is shown when a value is written: the machines and the states that it mentions, and what is
shown when the names of these states and of the current states of these machines are written. -/
inductive Mentions (w : World) : Value → Value → Prop
  | here {v r : Value} (h : r ∈ v.mentions) : Mentions w v r
  | state {v r : Value} {s : StateRef} (h : .state s ∈ v.mentions)
      (hName : Mentions w (w.state s).name r) : Mentions w v r
  | machine {v r : Value} {m : MachineRef} (h : .machine m ∈ v.mentions)
      (hName : Mentions w (w.currentName m) r) : Mentions w v r

/-- Nothing is shown of a value that mentions nothing. -/
theorem not_mentions {w : World} {v r : Value} (h : v.mentions = []) : ¬w.Mentions v r := by
  rintro (hHere | ⟨hHere, -⟩ | ⟨hHere, -⟩) <;> exact absurd (h ▸ hHere) List.not_mem_nil

/-- What is shown depends on machines alone, and not on what else there is in a world. -/
theorem Mentions.of_machines {w w' : World} (h : w'.machines = w.machines) {v r : Value}
    (hMentions : w'.Mentions v r) : w.Mentions v r := by
  have hMachine (m : MachineRef) : w'.machine m = w.machine m := by
    rw [World.machine, h, World.machine]
  induction hMentions with
  | here hHere => exact .here hHere
  | state hState _ ih => exact .state hState (by rwa [World.state, hMachine] at ih)
  | machine hMachine' _ ih => exact .machine hMachine' (by rwa [currentName, hMachine] at ih)

/-- Whether a machine or a state is shown in another world as it is shown in this one. -/
def ShownAlike (ρ : Renaming) (w w' : World) : Value → Prop
  | .state s => (w'.state (s.rename ρ)).name = (w.state s).name.rename ρ
  | .machine m => (w'.machine (ρ .machine m)).states.length = (w.machine m).states.length ∧
      w'.currentName (ρ .machine m) = (w.currentName m).rename ρ
  | _ => True

variable {ρ : Renaming} {w w' : World}

/-- The text of a machine shows how many states it has, and the name of the current one. -/
theorem machineText_eq (w : World) (refs : RefText) (m : MachineRef) :
    w.machineText refs m = "Machine(states=" ++ toString (w.machine m).states.length ++
      ", current=" ++ (w.currentName m).literal refs ++ ")" := rfl

/-- What a value mentions is written alike if whatever is shown is alike. Only the texts of the
first machines are written out, so the machines that the value mentions must be among these in both
worlds or in none. -/
theorem sameOn_alike {v : Value} {n n' : Nat} (hShown : ∀ r, w.Mentions v r → w.ShownAlike ρ w' r)
    (hOut : ∀ r ∈ v.mentions, ∀ m ∈ r.home?, ρ .machine m < n' ↔ m < n) :
    (w.refTextBelow n).SameOn ((w'.refTextBelow n').comap ρ) v.mentions := by
  -- the names that are shown are written with fewer of the machines written out
  induction n using Nat.strong_induction_on generalizing v n' with
  | _ n ih =>
    have hName {name : Value} {m : MachineRef} (hm : m < n)
        (hNext : ∀ r, w.Mentions name r → w.ShownAlike ρ w' r) :
        (name.rename ρ).literal (w'.refTextBelow (ρ .machine m)) =
          name.literal (w.refTextBelow m) :=
      Value.literal_rename (ih m hm hNext fun _ _ _ _ => (ρ .machine).lt_iff_lt)
    refine ⟨fun s hs => ?_, fun m hm => ?_⟩
    · have hState : (w'.state (s.rename ρ)).name = (w.state s).name.rename ρ :=
        hShown _ (.here hs)
      have hSame : (s.rename ρ).machine < n' ↔ s.machine < n := hOut _ hs _ rfl
      show (w'.refTextBelow n').state (s.rename ρ) = (w.refTextBelow n).state s
      rw [refTextBelow_state, refTextBelow_state]
      by_cases hBelow : s.machine < n
      · have hWritten := hName hBelow fun r hr => hShown r (.state hs hr)
        rw [if_pos hBelow, if_pos (hSame.mpr hBelow), stateText, hState, stateText]
        exact congrArg (fun text => "State(" ++ text ++ ")") hWritten
      · rw [if_neg hBelow, if_neg fun h => hBelow (hSame.mp h)]
    · have hMachine : w.ShownAlike ρ w' (.machine m) := hShown _ (.here hm)
      have hSame : ρ .machine m < n' ↔ m < n := hOut _ hm _ rfl
      show (w'.refTextBelow n').machine (ρ .machine m) = (w.refTextBelow n).machine m
      rw [refTextBelow_machine, refTextBelow_machine]
      by_cases hBelow : m < n
      · have hWritten := hName hBelow fun r hr => hShown r (.machine hm hr)
        rw [if_pos hBelow, if_pos (hSame.mpr hBelow), machineText_eq, hMachine.1, hMachine.2,
          hWritten, machineText_eq]
      · rw [if_neg hBelow, if_neg fun h => hBelow (hSame.mp h)]

/-- **Values are written alike in two worlds** if whatever is shown of them is alike, and the
machines that they mention were built in both worlds or in none. -/
theorem sameFor_alike {values : List Value}
    (hShown : ∀ v ∈ values, ∀ r, w.Mentions v r → w.ShownAlike ρ w' r)
    (hBuilt : ∀ v ∈ values, ∀ r ∈ v.mentions, ∀ m ∈ r.home?,
      ρ .machine m < w'.machines.length ↔ m < w.machines.length) :
    w.refText.SameFor w'.refText ρ values :=
  fun v hv => sameOn_alike (hShown v hv) (hBuilt v hv)

-- ---------------------------------------------------------------------------
-- The same machines at another time
-- ---------------------------------------------------------------------------

theorem shownAlike_state {s : StateRef}
    (hTable : (w'.machine s.machine).declared = (w.machine s.machine).declared) :
    w.ShownAlike .identity w' (.state s) :=
  (Machine.nameOf_of_declared hTable s.index).trans (Value.rename_identity _).symm

/-- A machine is shown alike as long as it has the same table and the same current state. -/
theorem shownAlike_machine {m : MachineRef}
    (hTable : (w'.machine m).declared = (w.machine m).declared)
    (hCurrent : (w'.machine m).current = (w.machine m).current) :
    w.ShownAlike .identity w' (.machine m) := by
  have hName : (w'.machine m).currentName? = (w.machine m).currentName? := by
    rw [Machine.currentName?, hCurrent, funext (Machine.nameOf_of_declared hTable),
      Machine.currentName?]
  refine ⟨Machine.length_of_declared hTable, (congrArg (·.getD .null) hName).trans ?_⟩
  exact (Value.rename_identity _).symm

/-- Whether a machine was built and has the same current state in another world. Of a state it is
enough that its machine was built. -/
def StandsAlike (w w' : World) : Value → Prop
  | .state s => s.machine < w.machines.length
  | .machine m => m < w.machines.length ∧ (w'.machine m).current = (w.machine m).current
  | _ => True

/-- **Whether the machines that the names of a machine mention are where they were,** and those that
are mentioned in the names that these show. -/
def NamesAlike (w w' : World) (m : MachineRef) : Prop :=
  ∀ i r, w.Mentions ((w.machine m).nameOf i) r → w.StandsAlike w' r

/-- A value is written alike at two moments if the machines that it mentions are where they were. -/
theorem plain_alike
    (hTables : ∀ m < w.machines.length, (w'.machine m).declared = (w.machine m).declared)
    (hLength : w.machines.length ≤ w'.machines.length) {v : Value}
    (h : ∀ r, w.Mentions v r → w.StandsAlike w' r) : w'.plain v = w.plain v := by
  have hBuilt (r : Value) (hr : w.Mentions v r) (m : MachineRef) (hm : m ∈ r.home?) :
      m < w.machines.length := by
    have hStands := h r hr
    cases r with
    | state s =>
      obtain rfl := Option.some.inj hm
      exact hStands
    | machine ref =>
      obtain rfl := Option.some.inj hm
      exact hStands.1
    | _ => cases hm
  have hSame : w.refText.SameFor w'.refText .identity [v] := sameFor_alike ?shown ?built
  · exact Value.plain_congr (hSame v List.mem_cons_self)
  case shown =>
    intro value hValue r hr
    obtain rfl := List.mem_singleton.mp hValue
    cases r with
    | state s => exact shownAlike_state (hTables _ (hBuilt _ hr _ rfl))
    | machine m => exact shownAlike_machine (hTables _ (hBuilt _ hr _ rfl)) (h _ hr).2
    | _ => trivial
  case built =>
    intro value hValue r hr m hm
    obtain rfl := List.mem_singleton.mp hValue
    have hOld := hBuilt r (.here hr) m hm
    exact iff_of_true (Nat.lt_of_lt_of_le hOld hLength) hOld

end World

end RuleMachine
