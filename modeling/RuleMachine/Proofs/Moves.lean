import RuleMachine.Program.Execution

/-!
# What an execution can do to a machine

Whatever functions do, they do it by primitive operations, and there are only a few things
that a primitive operation can do to a machine. `World.Move` lists them, and everything that
holds of a machine throughout every execution is proved by going through the list.

Main statements: `Primitive.move`, the list is complete; and `Config.machine_invariant`, what no
item of the list destroys holds at every moment.
-/

namespace RuleMachine

/-- Whether a primitive operation resets a machine. -/
def Primitive.resets {β : Type} (p : Primitive β) (ref : MachineRef) : Bool :=
  match p with
  | .reset m => m == ref
  | _ => false

/-- What a primitive operation can make of the machine at a reference. Whether it may reset the
machine is said by `resets`. -/
inductive World.Move (w : World) (ref : MachineRef) (resets : Prop) : Machine → Prop where
  | stay : Move w ref resets (w.machine ref)
  | enter (index : Nat) (h : index < (w.machine ref).states.length) :
    Move w ref resets ((w.machine ref).enter index)
  | put (index : Nat) (slot : Slot) (v : Value) :
    Move w ref resets ((w.machine ref).setSlot index slot v)
  | adjust (a : Adjustment) : Move w ref resets (a.apply (w.machine ref))
  | reset (h : resets) : Move w ref resets (w.machine ref).reset
  | build (m : Machine) (table : Value) (s s' : Streams) (hRef : ref = w.machines.length)
    (hTable : (readTable ref table).result s = (.ok m, s')) : Move w ref resets m

namespace World

variable {w : World} {ref : MachineRef} {resets : Prop}

/-- A change of one machine is a move of it and leaves the others where they are. -/
theorem Move.of_modify {other : MachineRef} {f : Machine → Machine}
    (h : other = ref → w.Move ref resets (f (w.machine ref))) :
    w.Move ref resets ((w.modifyMachine other f).machine ref) := by
  rw [machine_modifyMachine]
  split
  · rename_i hOther
    obtain ⟨rfl, -⟩ := hOther
    exact h rfl
  · exact .stay

/-- An entry moves the machine of the entered state. -/
theorem Move.commit (s : StateRef) : w.Move ref resets ((w.commit s).machine ref) := by
  unfold World.commit
  split
  · rename_i hDeclares
    refine Move.of_modify (w := w) ?_
    rintro rfl
    exact .enter s.index (declares_iff.mp hDeclares)
  · exact .stay

/-- An assignment puts a value into one machine and leaves the others alone. -/
theorem Move.assign {s : StateRef} {slot : Slot} {v : Value} {w' : World}
    (h : w.assign s slot v = .ok w') : w.Move ref resets (w'.machine ref) := by
  unfold World.assign at h
  split at h
  · cases h
  · obtain rfl := whileAlive_eq_ok h
    exact Move.of_modify fun _ => .put s.index slot v

/-- So does an assignment to the current state. -/
theorem Move.assignCurrent {m : MachineRef} {slot : Slot} {v : Value} {w' : World}
    (h : w.assignCurrent m slot v = .ok w') : w.Move ref resets (w'.machine ref) := by
  unfold World.assignCurrent at h
  split at h
  · exact Move.assign h
  · cases h

/-- A change that may be refused is a move if it is one when it is not refused. -/
theorem Move.update {r : Except Cause World}
    (h : ∀ w', r = .ok w' → w.Move ref resets (w'.machine ref)) :
    w.Move ref resets ((w.update r).2.machine ref) := by
  cases r with
  | ok w' => exact h w' rfl
  | error cause => exact .stay

/-- Where one more machine stands, and where the others do. -/
theorem machine_concat (w : World) (m : Machine) (ref : MachineRef) :
    (w.machines ++ [m])[ref]?.getD default =
      if ref = w.machines.length then m else w.machine ref := by
  rcases Nat.lt_trichotomy ref w.machines.length with hlt | rfl | hgt
  · rw [List.getElem?_append_left hlt, if_neg (Nat.ne_of_lt hlt), machine]
  · rw [List.getElem?_concat_length, if_pos rfl, Option.getD_some]
  · rw [List.getElem?_eq_none (by simp; omega), if_neg (Nat.ne_of_gt hgt),
      machine_of_le (Nat.le_of_lt hgt), Option.getD_none]

/-- A construction leaves every machine alone and may add one. -/
theorem Move.construct (table : Value) : w.Move ref resets ((w.construct table).2.machine ref) := by
  rcases hRead : (readTable w.machines.length table).result w.streams with ⟨cause | m, s'⟩
  · simp only [World.construct, hRead]
    exact .stay
  · simp only [World.construct, hRead]
    show w.Move ref resets ((w.machines ++ [m])[ref]?.getD default)
    rw [machine_concat]
    -- the machine under this number is the new one, or it was there before
    split
    · rename_i hRef
      rw [hRef]
      exact .build m table w.streams s' rfl hRead
    · exact .stay

/-- A move that need not be a reset. -/
theorem Move.mono {resets' : Prop} {m : Machine} (h : w.Move ref resets m)
    (hResets : resets → resets') : w.Move ref resets' m := by
  cases h with
  | stay => exact .stay
  | enter index h => exact .enter index h
  | put index slot v => exact .put index slot v
  | adjust a => exact .adjust a
  | reset h => exact .reset (hResets h)
  | build m table s s' hRef hTable => exact .build m table s s' hRef hTable

end World

/-- Keeping books touches no machine. -/
theorem Bookkeeping.machine_apply (b : Bookkeeping) (w : World) (ref : MachineRef) :
    (b.apply w).machine ref = w.machine ref := by
  cases b with
  | setPhase id phase =>
    rw [apply]
    cases w.steppers.get? id <;> rfl
  | _ => rfl

/-- **What a primitive operation does to a machine** is one of the moves. -/
theorem Primitive.move {β : Type} (p : Primitive β) (w : World) (ref : MachineRef) :
    w.Move ref (p.resets ref) ((p.effect w).2.machine ref) := by
  -- the primitives that touch machines, one by one; the rest leave them all alone
  cases p with
  | commit s => exact .commit s
  | reset m => exact World.Move.of_modify (w := w) fun h => .reset (beq_iff_eq.mpr h)
  | assign s slot v => exact .update fun _ h => .assign h
  | assignCurrent m slot v => exact .update fun _ h => .assignCurrent h
  | adjust m a => exact World.Move.of_modify fun _ => .adjust a
  | construct table => exact .construct table
  | keep b =>
    show w.Move ref _ ((b.apply w).machine ref)
    rw [b.machine_apply]
    exact .stay
  | _ => exact .stay

/-- **What no move destroys holds of every machine at every moment.** -/
theorem Config.machine_invariant {I : MachineRef → Machine → Prop} (hDefault : ∀ ref, I ref default)
    (hMove : ∀ (w : World) (ref : MachineRef) (m : Machine),
      (∀ ref, I ref (w.machine ref)) → w.Move ref True m → I ref m)
    {α : Type} (handler : Handler) (p : Program α) (n : Nat) (ref : MachineRef) :
    I ref (((Config.start p).after .standard handler n).world.machine ref) := by
  -- the invariant is carried for all machines at once, since a move may depend on the others
  have hAll : ∀ ref, I ref (((Config.start p).after .standard handler n).world.machine ref) := by
    refine Config.invariant (I := fun w => ∀ ref, I ref (w.machine ref)) ?_ ?_ ?_ n
    · exact fun w f args h ref => h ref
    · intro β q w h ref
      exact hMove w ref _ h ((q.move w ref).mono fun _ => trivial)
    · exact fun ref => hDefault ref
  exact hAll ref

end RuleMachine
