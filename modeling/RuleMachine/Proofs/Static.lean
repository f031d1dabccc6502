import RuleMachine.Proofs.Deeds
import RuleMachine.Proofs.Moves

/-!
# What never changes

The table of a machine, its states with their names, actions and rules, is made when the machine
is built. No move alters it, so whatever happens in between, what was read off a table once can
be read off it again.

Main statement: `Config.sameTables`, for everything that can happen in an execution. A table without
states looks like a machine that was not built; `Config.Leads.declared_of_built` is about those that
were.
-/

namespace RuleMachine

/-- Whether the tables of one world are still those of another. -/
def World.SameTables (w w' : World) : Prop :=
  ∀ ref, 0 < (w.machine ref).states.length →
    (w'.machine ref).declared = (w.machine ref).declared

/-- No move alters the table of a machine that was built, also if it has no states. -/
theorem World.Move.declared_of_built {w : World} {ref : MachineRef} {resets : Prop} {m : Machine}
    (hMove : w.Move ref resets m) (h : ref < w.machines.length) :
    m.declared = (w.machine ref).declared := by
  cases hMove with
  | stay => rfl
  | enter index hIndex => exact Machine.declared_enter _ index
  | put index slot v => exact Machine.declared_setSlot _ index slot v
  | adjust a => cases a <;> rfl
  | reset _ => exact Machine.declared_reset _
  | build m table s s' hRef hTable => exact absurd hRef (Nat.ne_of_lt h)

/-- No move alters a table. -/
theorem World.Move.declared {w : World} {ref : MachineRef} {resets : Prop} {m : Machine}
    (hMove : w.Move ref resets m) (h : 0 < (w.machine ref).states.length) :
    m.declared = (w.machine ref).declared := by
  refine hMove.declared_of_built (Nat.lt_of_not_le fun hBeyond => ?_)
  rw [World.machine_of_le hBeyond] at h
  exact absurd h (Nat.lt_irrefl 0)

namespace World.SameTables

variable {w w' w'' : World}

/-- Tables that stay the same in two changes stay the same in both. -/
theorem trans (h : w.SameTables w') (h' : w'.SameTables w'') : w.SameTables w'' := by
  intro ref hStates
  have hStates' : 0 < (w'.machine ref).states.length := by
    rwa [Machine.length_of_declared (h ref hStates)]
  rw [h' ref hStates', h ref hStates]

/-- The machine of a state that was declared has the table that it had. -/
theorem declared (h : w.SameTables w') {s : StateRef} (hs : w.declares s) :
    (w'.machine s.machine).declared = (w.machine s.machine).declared :=
  h s.machine (Nat.zero_lt_of_lt (World.declares_iff.mp hs))

theorem declares (h : w.SameTables w') {s : StateRef} (hs : w.declares s) : w'.declares s := by
  rw [World.declares_iff, Machine.length_of_declared (h.declared hs)]
  exact World.declares_iff.mp hs

theorem name (h : w.SameTables w') {s : StateRef} (hs : w.declares s) :
    (w'.state s).name = (w.state s).name :=
  Machine.nameOf_of_declared (h.declared hs) s.index

theorem actions (h : w.SameTables w') {s : StateRef} (hs : w.declares s) (slot : ActionSlot) :
    (w'.state s).actions slot = (w.state s).actions slot :=
  Machine.actions_of_declared (h.declared hs) s.index slot

theorem rules (h : w.SameTables w') {s : StateRef} (hs : w.declares s) :
    (w'.state s).rules = (w.state s).rules :=
  Machine.rules_of_declared (h.declared hs) s.index

end World.SameTables

/-- Nothing that happens alters a table. -/
theorem Config.sameTables {α : Type} (handler : Handler) (c : Config α) (n : Nat) :
    c.world.SameTables (c.after .standard handler n).world := by
  refine Config.invariant (I := fun w => c.world.SameTables w) ?_ ?_ (fun _ _ => rfl) n
  · exact fun w f args h => h
  · exact fun β p w h => h.trans fun ref hStates => (p.move w ref).declared hStates

/-- **No execution changes the table of a machine.** -/
theorem Config.Leads.sameTables {α : Type} {handler : Handler} {c c' : Config α}
    (h : c.Leads handler c') : c.world.SameTables c'.world := by
  obtain ⟨n, rfl⟩ := h
  exact Config.sameTables handler c n

-- ---------------------------------------------------------------------------
-- Tables of machines that were built
-- ---------------------------------------------------------------------------

namespace World

theorem length_modifyMachine (w : World) (ref : MachineRef) (f : Machine → Machine) :
    (w.modifyMachine ref f).machines.length = w.machines.length :=
  List.length_modify _ _ _

/-- So does writing to a slot. -/
theorem length_assign {w w' : World} {s : StateRef} {slot : Slot} {v : Value}
    (h : w.assign s slot v = .ok w') : w'.machines.length = w.machines.length := by
  unfold World.assign at h
  split at h
  · cases h
  · obtain rfl := whileAlive_eq_ok h
    exact w.length_modifyMachine _ _

/-- So does a change that may fail, if it does. -/
theorem length_update {w : World} {r : Except Cause World}
    (h : ∀ w', r = .ok w' → w'.machines.length = w.machines.length) :
    (w.update r).2.machines.length = w.machines.length := by
  cases r with
  | ok w' => exact h w' rfl
  | error cause => rfl

end World

/-- Whether a primitive operation may build a machine. -/
def Primitive.builds {β : Type} (p : Primitive β) : Bool :=
  match p with
  | .construct _ => true
  | _ => false

/-- There are more machines only after building. -/
theorem Primitive.length_effect {β : Type} (p : Primitive β) (h : p.builds = false) (w : World) :
    (p.effect w).2.machines.length = w.machines.length := by
  -- every primitive but the building of a machine works on the list of machines place by place
  cases p with
  | commit s =>
    show (w.commit s).machines.length = _
    unfold World.commit
    split
    · exact w.length_modifyMachine _ _
    · rfl
  | reset m => exact w.length_modifyMachine _ _
  | assign s slot v => exact World.length_update fun _ h => World.length_assign h
  | assignCurrent m slot v =>
    refine World.length_update fun w' h => ?_
    unfold World.assignCurrent at h
    split at h
    · exact World.length_assign h
    · cases h
  | adjust m a => exact w.length_modifyMachine _ _
  | construct table => cases h
  | keep b =>
    cases b with
    | setPhase id phase =>
      show ((Bookkeeping.setPhase id phase).apply w).machines.length = _
      rw [Bookkeeping.apply]
      cases w.steppers.get? id <;> rfl
    | _ => rfl
  | _ => rfl

/-- Machines are never taken away. -/
theorem Primitive.length_le {β : Type} (p : Primitive β) (w : World) :
    w.machines.length ≤ (p.effect w).2.machines.length := by
  -- only a construction that succeeds adds a machine, at the end
  cases p with
  | construct table =>
    show _ ≤ (w.construct table).2.machines.length
    rcases hRead : (readTable w.machines.length table).result w.streams with ⟨cause | m, s'⟩
    · simp only [World.construct, hRead, Nat.le_refl]
    · simp only [World.construct, hRead]
      show _ ≤ (w.machines ++ [m]).length
      rw [List.length_append]
      exact Nat.le_add_right _ _
  | _ => exact Nat.le_of_eq (Primitive.length_effect _ rfl w).symm

/-- Whatever happens, machines are never taken away. -/
theorem Config.Leads.length_le {α : Type} {handler : Handler} {c c' : Config α}
    (h : c.Leads handler c') : c.world.machines.length ≤ c'.world.machines.length := by
  obtain ⟨n, rfl⟩ := h
  refine Config.invariant (I := fun w => c.world.machines.length ≤ w.machines.length) ?_ ?_
    (Nat.le_refl _) n
  · exact fun w f args h => h
  · exact fun β p w h => Nat.le_trans h (p.length_le w)

/-- What happens alters no table of a machine that was built. -/
theorem Config.Leads.declared_of_built {α : Type} {handler : Handler} {c c' : Config α}
    {m : MachineRef} (h : c.Leads handler c') (hBuilt : m < c.world.machines.length) :
    (c'.world.machine m).declared = (c.world.machine m).declared := by
  obtain ⟨n, rfl⟩ := h
  refine (Config.invariant (I := fun w => m < w.machines.length ∧
    (w.machine m).declared = (c.world.machine m).declared) ?_ ?_ ⟨hBuilt, rfl⟩ n).2
  · exact fun w f args h => h
  · rintro β p w ⟨hBuilt, hSame⟩
    exact ⟨Nat.lt_of_lt_of_le hBuilt (p.length_le w),
      ((p.move w m).declared_of_built hBuilt).trans hSame⟩

end RuleMachine
