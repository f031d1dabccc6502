import RuleMachine.Proofs.Correspondence.Commands

/-!
# Programs that leave things tidy

Nothing that was made is ever taken away. And whoever marks a machine as in use marks it as no
longer in use in the end: engine and scripts leave the machines in use as they found them.

A program that marks machines has to count the marks that it has yet to take back. That is its
level. Programs that begin and end with level zero leave the marks as they found them.

* `Program.Tidy`: programs with a level.
* `Program.Tidy.after`: what becomes of their executions.
* `Functions.handler_tidy`, `Run.perform_tidy`: scripts are tidy.
-/

namespace RuleMachine

-- ---------------------------------------------------------------------------
-- Primitive operations
-- ---------------------------------------------------------------------------

namespace World

/-- Changing a machine makes nothing new. -/
theorem supply_modifyMachine (w : World) (m : MachineRef) (f : Machine → Machine) :
    (w.modifyMachine m f).supply = w.supply := by
  funext kind
  cases kind with
  | machine => exact List.length_modify ..
  | nan | stream => rfl

/-- Writing to a slot changes a machine, or it fails and changes nothing. -/
theorem supply_assign (w : World) (s : StateRef) (slot : Slot) (v : Value) :
    (w.update (w.assign s slot v)).2.supply = w.supply := by
  rcases w.update_assign s slot v with hSame | hPut
  · rw [hSame]
  · rw [hPut, supply_modifyMachine]

/-- Writing to a slot leaves the marks of machines in use. -/
theorem active_assign (w : World) (s : StateRef) (slot : Slot) (v : Value) :
    (w.update (w.assign s slot v)).2.active = w.active := by
  rcases w.update_assign s slot v with hSame | hPut
  · rw [hSame]
  · rw [hPut]
    rfl

/-- Building adds at most a machine. Streams lose items, and none of them goes. -/
theorem supply_construct (w : World) (table : Value) : w.supply ≤ (w.construct table).2.supply := by
  have hTaken := (readTable_takes w.machines.length table w.streams).length
  -- whether a machine is built or the table is refused, streams may have been drained
  rcases hRead : (readTable w.machines.length table).result w.streams with ⟨cause | m, t⟩
  · rw [hRead] at hTaken
    simp only [construct, hRead]
    intro kind
    cases kind with
    | nan | machine => exact Nat.le_refl _
    | stream => exact Nat.le_of_eq hTaken.symm
  · rw [hRead] at hTaken
    simp only [construct, hRead]
    intro kind
    cases kind with
    | nan => exact Nat.le_refl _
    | stream => exact Nat.le_of_eq hTaken.symm
    | machine =>
      show w.machines.length ≤ (w.machines ++ [m]).length
      rw [List.length_append]
      exact Nat.le_add_right _ _

end World

namespace Primitive

variable {β : Type}

/-- Nothing is taken away by a primitive operation. -/
theorem supply_effect (p : Primitive β) (h : p.isReading = false) (w : World) :
    w.supply ≤ (p.effect w).2.supply := by
  -- only three operations make something: a machine, a NaN or a stream
  cases p with
  | fail | look => exact le_refl _
  | commit s =>
    simp only [effect, World.commit]
    split
    · exact le_of_eq (w.supply_modifyMachine s.machine _).symm
    · exact le_refl _
  | reset m => exact le_of_eq (w.supply_modifyMachine m _).symm
  | assign s slot v => exact le_of_eq (w.supply_assign s slot v).symm
  | assignCurrent m slot v =>
    simp only [effect, World.assignCurrent]
    cases w.current? m with
    | some s => exact le_of_eq (w.supply_assign s slot v).symm
    | none => exact le_refl _
  | adjust m a => exact le_of_eq (w.supply_modifyMachine m _).symm
  | construct table => exact w.supply_construct table
  | keep b =>
    cases b with
    | setPhase id phase =>
      simp only [effect, Bookkeeping.apply]
      cases w.steppers.get? id <;> exact le_refl _
    | _ => exact le_refl _
  | read r => cases h
  | nan =>
    intro kind
    cases kind with
    | nan => exact Nat.le_succ _
    | stream | machine => exact Nat.le_refl _
  | stream items =>
    intro kind
    cases kind with
    | stream =>
      show w.streams.left.length ≤ (w.streams.left ++ [items]).length
      rw [List.length_append]
      exact Nat.le_add_right _ _
    | nan | machine => exact Nat.le_refl _

/-- Only marks of use change which machines are in use. -/
theorem active_effect (p : Primitive β) (h : p.marksUse = false) (w : World) :
    (p.effect w).2.active = w.active := by
  -- the two operations that mark machines are excluded
  cases p with
  | commit s =>
    simp only [effect, World.commit]
    split <;> rfl
  | assign s slot v => exact w.active_assign s slot v
  | assignCurrent m slot v =>
    simp only [effect, World.assignCurrent]
    cases w.current? m with
    | some s => exact w.active_assign s slot v
    | none => rfl
  | construct table =>
    simp only [effect, World.construct]
    rcases (readTable w.machines.length table).result w.streams with ⟨_ | m, t⟩ <;> rfl
  | keep b =>
    cases b with
    | activate m => cases h
    | release => cases h
    | setPhase id phase =>
      simp only [effect, Bookkeeping.apply]
      cases w.steppers.get? id <;> rfl
    | _ => rfl
  | _ => rfl

end Primitive

-- ---------------------------------------------------------------------------
-- Programs
-- ---------------------------------------------------------------------------

/-- Whether a program takes nothing away, and marks as no longer in use whatever it marked. The
number is its level: how many marks it still has to take back. -/
inductive Program.Tidy : {α : Type} → Nat → Program α → Prop
  | ret {α : Type} (a : α) : Tidy 0 (.ret a)
  | perform {α β : Type} {level level' : Nat} {p : Primitive β}
      {next : Except Fault β → Program α} (hSupply : ∀ w : World, w.supply ≤ (p.effect w).2.supply)
      (hLevel : ∀ w : World, (p.effect w).2.active.drop level' = w.active.drop level)
      (hNext : ∀ w, Tidy level' (next (p.outcome w))) : Tidy level (.perform p next)
  | call {α : Type} {level : Nat} {f : FunctionName} {args : List Value}
      {next : Except Fault Value → Program α} (hNext : ∀ r, Tidy level (next r)) :
      Tidy level (.call f args next)
  | loop {α β : Type} {level : Nat} {body : Program (Option β)} {next : β → Program α}
      (hBody : Tidy 0 body) (hNext : ∀ b, Tidy level (next b)) : Tidy level (.loop body next)

/-- The same for a program that may fail. It leaves the marks as it found them. -/
def Run.Tidy {α : Type} (x : Run α) : Prop := Program.Tidy 0 (ExceptT.run x)

/-- Whether functions take back every mark that they make, and nothing that there is. -/
def Handler.Tidy (handler : Handler) : Prop := ∀ f args, (handler f args).Tidy

namespace Program.Tidy

variable {α β : Type}

theorem of_ret {level : Nat} {a : α} (h : Tidy level (.ret a)) : level = 0 := by
  cases h
  rfl

/-- One program after the other takes back the marks of both. -/
theorem bind {j k : Nat} {p : Program β} {q : β → Program α} (hp : Tidy j p)
    (hq : ∀ b, Tidy k (q b)) : Tidy (j + k) (p.bind q) := by
  induction hp with
  | ret b =>
    rw [Nat.zero_add]
    exact hq b
  | perform hSupply hLevel _ ih =>
    refine .perform hSupply (fun w => ?_) fun w => ih w hq
    rw [← List.drop_drop, hLevel, List.drop_drop]
  | call _ ih => exact .call fun r => ih r hq
  | loop hBody _ _ ih => exact .loop hBody fun b => ih b hq

/-- A round of a loop takes back its own marks, so that any number of them may follow. -/
theorem unroll {level : Nat} {body : Program (Option β)} {next : β → Program α}
    (hBody : Tidy 0 body) (hNext : ∀ b, Tidy level (next b)) :
    Tidy level (.unroll body next) := by
  rw [← Nat.zero_add level]
  refine hBody.bind fun r => ?_
  cases r with
  | some b => exact hNext b
  | none => exact .loop hBody hNext

/-- **Executions of tidy programs only add to what there is,** and what was in use below their level
still is. -/
theorem after {handler : Handler} (hHandler : handler.Tidy) {level : Nat} {p : Program α}
    (h : Tidy level p) (w : World) (n : Nat) :
    let c : Config α := Config.after .standard handler n { program := p, world := w }
    ∃ level', Tidy level' c.program ∧ w.supply ≤ c.world.supply ∧
      c.world.active.drop level' = w.active.drop level := by
  intro c
  -- the marks that are yet to be taken back are those on top
  induction n generalizing p level w with
  | zero => exact ⟨level, h, le_refl _, rfl⟩
  | succ n ih =>
    cases h with
    | ret a => exact ⟨0, .ret a, le_refl _, rfl⟩
    | @perform _ _ _ _ op next hSupply hLevel hNext =>
      obtain ⟨level', hTidy, hGrows, hUse⟩ := ih (hNext w) (op.effect w).2
      exact ⟨level', hTidy, (hSupply w).trans hGrows, hUse.trans (hLevel w)⟩
    -- a function takes back all its marks before the caller goes on
    | @call _ _ f args next hNext =>
      have hCall := (hHandler f args).bind hNext
      rw [Nat.zero_add] at hCall
      exact ih hCall (w.emit (.called f args))
    | loop hBody hNext => exact ih (hBody.unroll hNext) w

end Program.Tidy

-- ---------------------------------------------------------------------------
-- Everything that is put together is tidy
-- ---------------------------------------------------------------------------

namespace Run

variable {α β : Type}

/-- A program that fails has taken its marks back before. -/
theorem Tidy.bind {x : Run β} {k : β → Run α} (hx : x.Tidy) (hk : ∀ b, (k b).Tidy) :
    (x >>= k).Tidy := by
  unfold Run.Tidy
  rw [run_bind]
  refine Program.Tidy.bind (j := 0) (k := 0) hx fun r => ?_
  cases r with
  | ok b => exact hk b
  | error fault => exact .ret _

/-- Most primitive operations take nothing away and mark nothing. -/
theorem tidy_act {p : Primitive α} (hRead : p.isReading = false) (hUse : p.marksUse = false) :
    (act p).Tidy :=
  .perform (p.supply_effect hRead) (fun w => by rw [p.active_effect hUse]) fun _ => .ret _

/-- Reading takes items from streams, and streams stay. -/
theorem tidy_reading {r : Reading Cause α} (h : r.Takes) : (reading r).Tidy := by
  refine .perform (fun w kind => ?_) ?_ fun _ => .ret _
  · cases kind with
    | stream => exact Nat.le_of_eq (h w.streams).length.symm
    | nan | machine => exact Nat.le_refl _
  · exact fun w => rfl

theorem Tidy.outcome {x : Run α} (h : x.Tidy) : (outcome x).Tidy :=
  Program.Tidy.bind (j := 0) (k := 0) h fun _ => .ret _

/-- While a machine is kept in use the level is one. -/
theorem Tidy.keeping {x : Run α} (h : x.Tidy) (m : MachineRef) : (keeping m x).Tidy := by
  have hRelease (r : Except Fault α) : Program.Tidy 1
      (ExceptT.run (keep .release >>= fun _ => ofOutcome r)) := by
    refine .perform (fun w => le_refl _) ?_ fun _ => .ret _
    exact fun w => List.drop_one.symm
  have hMeanwhile : Program.Tidy (0 + 1)
      (ExceptT.run (Run.outcome x >>= fun r => keep .release >>= fun _ => ofOutcome r)) := by
    rw [run_outcome_bind, Nat.add_comm]
    exact Program.Tidy.bind (k := 1) h hRelease
  exact .perform (fun w => le_refl _) (fun w => rfl) fun _ => hMeanwhile

theorem Tidy.repeatUntil {x : Run (Option α)} (h : x.Tidy) : (repeatUntil x).Tidy :=
  .loop (Program.Tidy.bind (j := 0) (k := 0) h fun _ => .ret _) fun _ => .ret _

end Run

/-- Tidiness as a correspondence: nothing is renamed, everything is known, and everything is
allowed. -/
def Correspondence.tidy : Correspondence where
  ρ := .identity
  known _ := True
  allows _ := True
  Holds _ x _ := x.Tidy

namespace Correspondence

/-- **Whatever is put together is tidy,** as machines are marked and unmarked in pairs. -/
theorem tidy_lawful : tidy.Lawful where
  home _ := .rfl
  looks _ _ := trivial
  ofOutcome _ := .ret _
  bind hx hk := hx.bind fun b => hk b (Contents.within_any _ (fun _ => trivial) b)
  act hRead hUse _ _ := Run.tidy_act hRead hUse
  fail _ _ := Run.tidy_act rfl rfl
  call _ _ := .call fun _ => .ret _
  allowed _ _ := trivial
  reading _ hTakes _ := Run.tidy_reading hTakes
  outcome hx := hx.outcome
  keeping _ hx := hx.keeping _
  repeatUntil hx := hx.repeatUntil
  construct _ hk := (Run.tidy_act rfl rfl).bind fun m => hk m trivial fun _ => trivial
  -- everything is allowed, so the choice of a rule needs no rule of its own
  select hNever := absurd trivial hNever

theorem tidy_fixed (v : Value) : v.Fixed tidy.ρ tidy.known :=
  ⟨v.rename_identity, v.within_any fun _ => trivial⟩

end Correspondence

open Correspondence (tidy_lawful tidy_fixed)

/-- A command takes all its marks back before it ends. -/
theorem Run.perform_tidy (f : Frame) (i : Instruction) : (perform f i).Tidy :=
  tidy_lawful.perform (fun v _ => v.within_any fun _ => trivial) i (fun v _ => tidy_fixed v)
    (.inl fun _ => trivial)

/-- **Functions defined by scripts are tidy.** -/
theorem Functions.handler_tidy (functions : Functions) : functions.handler.Tidy :=
  fun name _ => tidy_lawful.handler (fun _ v _ => tidy_fixed v) (.inl fun _ => trivial) name
    fun v _ => v.within_any fun _ => trivial

end RuleMachine
