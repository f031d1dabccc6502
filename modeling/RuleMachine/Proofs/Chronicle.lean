import RuleMachine.Proofs.Consistency

/-!
# What the log tells of a machine

A machine logs that it was built, each state it enters with the number of the visit, and each reset.
Read from the beginning, with everything forgotten at each reset, the log tells a list of entries,
and this list is the history: as many entries, of the same states in the same order, each with the
number of entries of the same state up to then.

A record mentions a state by the text of its name at the moment of the entry. For a name that
mentions no machine and no state this is its text at any moment.

* `World.told`: what the log tells.
* `Tale.of`: what there is to tell of a history.
* `Config.tells`: the two agree at every moment of every execution.
* `Machine.Consistent.readBack`: what was told gives back the stack and the visits, if different
  states have different texts.
-/

namespace RuleMachine

-- ---------------------------------------------------------------------------
-- What is told
-- ---------------------------------------------------------------------------

/-- Entries of states as they are told: the text of a state, and the number of the visit. -/
abbrev Tale := List (String × Nat)

/-- What is told once another record has been read. Nothing from before a machine was built or reset
counts. -/
def Record.tell (told : Tale) : Record → Tale
  | .built _ _ | .reset => []
  | .entered state visit => told ++ [(state, visit)]
  | .switching _ _ | .noTransition _ => told

/-- What is told of a machine once another event has been read. -/
def Event.tell (ref : MachineRef) (told : Tale) : Event → Tale
  | .record m r => if m = ref then r.tell told else told
  | .called _ _ | .performed _ _ => told

/-- **What the log tells of a machine:** the entries since it was built or, if it was reset, since
the last reset. -/
def World.told (w : World) (ref : MachineRef) : Tale :=
  w.log.foldl (fun told entry => entry.event.tell ref told) []

/-- An event goes into the log of the machine that it is about. -/
theorem World.told_emit (w : World) (event : Event) (ref : MachineRef) :
    (w.emit event).told ref = event.tell ref (w.told ref) := by
  rw [told, emit, Array.foldl_push, told]

/-- A record for one machine changes the log of no other. -/
theorem World.told_record (w : World) (m ref : MachineRef) (r : Record) :
    (w.record m r).told ref = if m = ref then r.tell (w.told ref) else w.told ref :=
  w.told_emit (.record m r) ref

-- ---------------------------------------------------------------------------
-- What there is to tell
-- ---------------------------------------------------------------------------

/-- What there is to tell of a stack: for each entry the text of the state, and the number of
entries of the same state up to this one. -/
def Tale.of (written : Nat → Value → String) (stack : List Value) : Tale :=
  stack.mapIdx fun position name =>
    (written position name, (stack.take (position + 1)).countP fun other => other.eqv name)

namespace Tale

variable {written written' : Nat → Value → String} {stack : List Value}

theorem length_of (written : Nat → Value → String) (stack : List Value) :
    (Tale.of written stack).length = stack.length := List.length_mapIdx

/-- Each entry tells a name and how often it occurs in the stack up to there. -/
theorem getElem_of {position : Nat} (h : position < stack.length)
    (hTold : position < (Tale.of written stack).length) :
    (Tale.of written stack)[position] =
      (written position stack[position],
        (stack.take (position + 1)).countP fun other => other.eqv stack[position]) :=
  List.getElem_mapIdx

/-- The same is told in texts that agree on the entries there are. -/
theorem of_congr (h : ∀ position name, stack[position]? = some name →
    written' position name = written position name) :
    Tale.of written' stack = Tale.of written stack := by
  refine List.ext_getElem (by rw [length_of, length_of]) fun position hTold hTold' => ?_
  have hLt : position < stack.length := by rwa [length_of] at hTold
  rw [getElem_of hLt, getElem_of hLt, h position _ (List.getElem?_eq_getElem hLt)]

/-- One more entry is told after the others. -/
theorem of_concat (written : Nat → Value → String) (stack : List Value) (name : Value) :
    Tale.of written (stack ++ [name]) = Tale.of written stack ++
      [(written stack.length name, (stack ++ [name]).countP fun other => other.eqv name)] := by
  rw [Tale.of, List.mapIdx_concat, List.take_of_length_le (by simp)]
  congr 1
  refine List.ext_getElem (by rw [length_of, List.length_mapIdx]) fun i hi hi' => ?_
  rw [List.length_mapIdx] at hi
  rw [List.getElem_mapIdx, getElem_of hi, List.take_append_of_le_length (Nat.succ_le_of_lt hi)]

end Tale

/-- How often a state has been visited, once it is entered. -/
theorem Machine.Consistent.length_visits_enter {ref : MachineRef} {m : Machine}
    (h : m.Consistent ref) {index : Nat} (hIndex : index < m.states.length) :
    ((m.enter index).state index).visits.length =
      (m.stack ++ [m.nameOf index]).countP fun other => other.eqv (m.nameOf index) := by
  have hDeclared := declared_enter m index
  rw [(h.enter hIndex).visits index (by rwa [length_of_declared hDeclared]), positions,
    List.length_findIdxs, stack_enter hIndex, nameOf_of_declared hDeclared]

-- ---------------------------------------------------------------------------
-- The log and the history agree
-- ---------------------------------------------------------------------------

/-- Whether the log tells what there is to tell of a machine. References in the name of a state are
written as they were when the state was entered. -/
def World.Tells (w : World) (ref : MachineRef) : Prop :=
  ∃ written : Nat → RefText,
    w.told ref = Tale.of (fun position => Value.plain (written position)) (w.machine ref).stack

namespace World

variable {w w' : World} {ref : MachineRef}

theorem Tells.of_same (h : w.Tells ref) (hTold : w'.told ref = w.told ref)
    (hStack : (w'.machine ref).stack = (w.machine ref).stack) : w'.Tells ref := by
  obtain ⟨written, hWritten⟩ := h
  exact ⟨written, by rw [hTold, hWritten, hStack]⟩

/-- There is nothing to tell of a machine without a history. -/
theorem tells_of_empty (hTold : w.told ref = []) (hStack : (w.machine ref).stack = []) :
    w.Tells ref := by
  refine ⟨fun _ => w.refText, ?_⟩
  rw [hTold, hStack]
  rfl

/-- An entry goes into the log and into the stack at once. -/
theorem Tells.commit (h : w.Tells ref) (hConsistent : (w.machine ref).Consistent ref)
    (s : StateRef) : (w.commit s).Tells ref := by
  unfold World.commit
  split
  case isFalse => exact h
  case isTrue hDeclares =>
    set w' := w.modifyMachine s.machine fun m => m.enter s.index
    by_cases hRef : s.machine = ref
    · subst hRef
      have hIndex := declares_iff.mp hDeclares
      have hMachine : w'.machine s.machine = (w.machine s.machine).enter s.index :=
        machine_modifyMachine_self _ (lt_of_declares hDeclares)
      have hState : w'.state s = ((w.machine s.machine).enter s.index).state s.index := by
        rw [World.state, hMachine]
      have hName : (w'.state s).name = (w.machine s.machine).nameOf s.index := by
        rw [hState]
        exact Machine.nameOf_of_declared (Machine.declared_enter _ _) s.index
      obtain ⟨written, hWritten⟩ := h
      have hTold : w'.told s.machine = w.told s.machine := rfl
      -- the new entry is written now, and the others stay as they were written
      refine ⟨Function.update written (w.machine s.machine).stack.length w'.refText, ?_⟩
      show (w'.record _ _).told s.machine = Tale.of _ (w'.machine s.machine).stack
      rw [told_record, if_pos rfl, Record.tell, hTold, hWritten, hName, hState, hMachine,
        Machine.stack_enter hIndex, Tale.of_concat, hConsistent.length_visits_enter hIndex,
        Function.update_self, World.plain]
      refine congrArg (· ++ _) (Tale.of_congr fun position name hPosition => ?_).symm
      have hLt := (List.getElem?_eq_some_iff.mp hPosition).1
      rw [Function.update_of_ne (Nat.ne_of_lt hLt)]
    · refine h.of_same ?_ ?_
      · rw [told_record, if_neg hRef]
        rfl
      · show (w'.machine ref).stack = _
        rw [machine_modifyMachine_ne w _ hRef]

/-- A reset empties the stack, and the log starts again after its record. -/
theorem Tells.reset (h : w.Tells ref) (m : MachineRef) : (w.reset m).Tells ref := by
  have hTold : (w.reset m).told ref = if m = ref then [] else w.told ref :=
    told_record _ m ref .reset
  have hMachine : (w.reset m).machine ref = _ := w.machine_modifyMachine m ref Machine.reset
  -- the machine that is reset is the only one whose log and stack change
  by_cases hRef : m = ref
  · subst hRef
    refine tells_of_empty (by rw [hTold, if_pos rfl]) ?_
    rw [hMachine]
    split
    · rfl
    · rename_i hBeyond
      rw [machine_of_le (Nat.not_lt.mp fun hLt => hBeyond ⟨rfl, hLt⟩)]
      rfl
  · refine h.of_same (by rw [hTold, if_neg hRef]) ?_
    rw [hMachine, if_neg fun hBoth => hRef hBoth.1]

/-- A change to a machine that keeps its stack keeps what its log tells. -/
theorem Tells.modifyMachine (h : w.Tells ref) (m : MachineRef) {f : Machine → Machine}
    (hStack : ∀ m, (f m).stack = m.stack) : (w.modifyMachine m f).Tells ref := by
  refine h.of_same rfl ?_
  rw [machine_modifyMachine]
  split
  · rename_i hRef
    rw [hStack, hRef.1]
  · rfl

/-- An assignment keeps the stack, and nothing is logged for it. -/
theorem Tells.assign (h : w.Tells ref) {s : StateRef} {slot : Slot} {v : Value}
    (hAssign : w.assign s slot v = .ok w') : w'.Tells ref := by
  unfold World.assign at hAssign
  split at hAssign
  · cases hAssign
  · obtain rfl := whileAlive_eq_ok hAssign
    exact h.modifyMachine s.machine fun m => m.stack_setSlot s.index slot v

/-- A change that may fail keeps what the log tells if it does where it succeeds. -/
theorem Tells.update (h : w.Tells ref) {r : Except Cause World}
    (hDone : ∀ w', r = .ok w' → w'.Tells ref) : (w.update r).2.Tells ref := by
  cases r with
  | ok w' => exact hDone w' rfl
  | error cause => exact h

/-- A machine that was just built has an empty stack and an empty log. -/
theorem Tells.construct (h : w.Tells ref) (table : Value) : (w.construct table).2.Tells ref := by
  rcases hRead : (readTable w.machines.length table).result w.streams with ⟨cause | m, s'⟩
  · simp only [World.construct, hRead]
    exact h.of_same rfl rfl
  · simp only [World.construct, hRead]
    -- the new machine is at the end of the list, and every other one is where it was
    by_cases hRef : w.machines.length = ref
    · subst hRef
      refine tells_of_empty (by rw [told_record, if_pos rfl]; rfl) ?_
      show ((w.machines ++ [m])[w.machines.length]?.getD default).stack = []
      rw [machine_concat, if_pos rfl]
      exact congrArg (List.map Visit.name) (readTable_fresh hRead).2.history
    · refine h.of_same (by rw [told_record, if_neg hRef]; rfl) ?_
      show ((w.machines ++ [m])[ref]?.getD default).stack = _
      rw [machine_concat, if_neg (Ne.symm hRef)]

end World

/-- Keeping books tells nothing. -/
theorem Bookkeeping.told_apply (b : Bookkeeping) (w : World) (ref : MachineRef) :
    (b.apply w).told ref = w.told ref := by
  -- a switch is recorded but it is no entry, and what is no entry is not told
  cases b with
  | setPhase id phase =>
    rw [apply]
    cases w.steppers.get? id <;> rfl
  | switching m source target => simp only [apply, World.told_record, Record.tell, ite_self]
  | noTransition m source => simp only [apply, World.told_record, Record.tell, ite_self]
  | performed label outcome => exact w.told_emit _ ref
  | _ => rfl

/-- **No primitive operation brings log and history apart.** -/
theorem World.Tells.effect {w : World} {ref : MachineRef} (h : w.Tells ref)
    (hConsistent : (w.machine ref).Consistent ref) {β : Type} (p : Primitive β) :
    (p.effect w).2.Tells ref := by
  -- entries, resets and constructions are the primitives that move stack or log
  cases p with
  | commit s => exact h.commit hConsistent s
  | reset m => exact h.reset m
  | assign s slot v => exact h.update fun _ hAssign => h.assign hAssign
  | assignCurrent m slot v =>
    refine h.update fun w' hAssign => ?_
    unfold World.assignCurrent at hAssign
    split at hAssign
    · exact h.assign hAssign
    · cases hAssign
  | adjust m a =>
    refine h.modifyMachine m fun m => ?_
    cases a <;> rfl
  | construct table => exact h.construct table
  | keep b => exact h.of_same (b.told_apply w ref) (by rw [Primitive.effect, b.machine_apply])
  | _ => exact h.of_same rfl rfl

/-- **The log tells the history at every moment,** whatever program is executed and whatever
functions do, also in the middle of an entry and before a failure. -/
theorem Config.tells {α : Type} (handler : Handler) (p : Program α) (n : Nat) (ref : MachineRef) :
    ((Config.start p).after .standard handler n).world.Tells ref := by
  refine (Config.invariant
    (I := fun w => (w.machine ref).Consistent ref ∧ w.Tells ref) ?_ ?_ ?_ n).2
  · rintro w f args ⟨hConsistent, hTells⟩
    exact ⟨hConsistent, hTells.of_same (w.told_emit _ ref) rfl⟩
  · rintro β p w ⟨hConsistent, hTells⟩
    exact ⟨(p.move w ref).consistent hConsistent, hTells.effect hConsistent p⟩
  · exact ⟨Machine.consistent_default ref, World.tells_of_empty rfl rfl⟩

-- ---------------------------------------------------------------------------
-- Reading the log back
-- ---------------------------------------------------------------------------

/-- How often a state with a text was visited, as it was told last. -/
def Tale.visits (told : Tale) (text : String) : Nat :=
  ((told.reverse.find? fun entry => entry.1 = text).map Prod.snd).getD 0

/-- Of the positions at which something holds, each is counted once more than the one before. -/
theorem countP_take_of_findIdxs {p : Value → Bool} {names : List Value} {k position : Nat}
    (h : (names.findIdxs p)[k]? = some position) :
    (names.take (position + 1)).countP p = k + 1 := by
  -- the positions are counted from a start, which the induction needs to vary
  have hFrom (names : List Value) (start k position : Nat)
      (h : (names.findIdxs p start)[k]? = some (start + position)) :
      (names.take (position + 1)).countP p = k + 1 := by
    induction names generalizing start k position with
    | nil => simp at h
    | cons name rest ih =>
      have hLater {k : Nat} (h : (rest.findIdxs p (start + 1))[k]? = some (start + position)) :
          0 < position ∧ (rest.take position).countP p = k + 1 := by
        have hLe := List.ge_of_mem_findIdxs _ (List.mem_of_getElem? h)
        obtain ⟨earlier, rfl⟩ : ∃ earlier, position = earlier + 1 :=
          ⟨position - 1, by omega⟩
        exact ⟨Nat.succ_pos _, ih (start + 1) k earlier (by rw [h]; congr 1; omega)⟩
      rw [List.findIdxs_cons] at h
      rw [List.take_succ_cons, List.countP_cons]
      split at h
      · rename_i hName
        cases k with
        | zero =>
          have hHere : position = 0 := by simpa using h
          simp [hHere, hName]
        | succ k => rw [(hLater h).2, if_pos hName]
      · rename_i hName
        rw [(hLater h).2, if_neg hName]
  exact hFrom names 0 k position (by rwa [Nat.zero_add])

namespace Machine

/-- The stack that is read back from what was told: for each text the name of the state that it
belongs to. -/
def readBack (plain : Value → String) (m : Machine) (told : Tale) : List Value :=
  told.filterMap fun (text, _) => (m.states.find? fun s => plain s.name = text).map State.name

/-- Whether different states of a machine have different texts. -/
def TellsApart (plain : Value → String) (m : Machine) : Prop :=
  ∀ i < m.states.length, ∀ j < m.states.length, plain (m.nameOf i) = plain (m.nameOf j) → i = j

instance (plain : Value → String) (m : Machine) : Decidable (m.TellsApart plain) :=
  inferInstanceAs (Decidable (∀ i < m.states.length, ∀ j < m.states.length,
    plain (m.nameOf i) = plain (m.nameOf j) → i = j))

variable {ref : MachineRef} {m : Machine} {plain : Value → String}

/-- The texts told are those of the states entered. -/
theorem texts_told (plain : Value → String) (stack : List Value) :
    (Tale.of (fun _ => plain) stack).map Prod.fst = stack.map plain := by
  refine List.ext_getElem (by simp [Tale.length_of]) fun i _ hi => ?_
  rw [List.length_map] at hi
  rw [List.getElem_map, Tale.getElem_of hi, List.getElem_map]

/-- Each visit to a state is told where it is in the history, with its number. -/
theorem Consistent.told_visit (h : m.Consistent ref) {i k position : Nat} (hi : i < m.states.length)
    (hVisit : (m.state i).visits[k]? = some position) :
    (Tale.of (fun _ => plain) m.stack)[position]? = some (plain (m.nameOf i), k + 1) := by
  rw [h.visits i hi] at hVisit
  have hMem : position ∈ m.positions (m.nameOf i) := List.mem_of_getElem? hVisit
  obtain ⟨hLt, hEqv⟩ := List.mem_findIdxs_iff_exists_getElem_pos.mp hMem
  -- of the declared names only that of the state itself equals its name
  have hName : m.stack[position] = m.nameOf i := by
    obtain ⟨j, hj, hName⟩ := h.visited _ (List.getElem_mem hLt)
    rw [hName, h.eqv_iff hj hi] at hEqv
    rw [hName, hEqv]
  have hTold : position < (Tale.of (fun _ => plain) m.stack).length := by rwa [Tale.length_of]
  rw [List.getElem?_eq_getElem hTold, Tale.getElem_of hLt, hName,
    countP_take_of_findIdxs hVisit]

/-- The state that a text belongs to. -/
theorem TellsApart.find? (h : m.TellsApart plain) {i : Nat} (hi : i < m.states.length) :
    (m.states.find? fun s => plain s.name = plain (m.nameOf i)).map State.name =
      some (m.nameOf i) := by
  have hState {j : Nat} (hj : j < m.states.length) : m.states[j].name = m.nameOf j := by
    rw [nameOf, state, List.getElem?_eq_getElem hj, Option.getD_some]
  -- the state itself has the text, and no other state that has it comes before
  cases hFind : m.states.find? fun s => plain s.name = plain (m.nameOf i) with
  | none =>
    have hNot := List.find?_eq_none.mp hFind m.states[i] (List.getElem_mem hi)
    rw [hState hi] at hNot
    simp at hNot
  | some s =>
    obtain ⟨j, hj, rfl⟩ := List.getElem_of_mem (List.mem_of_find?_eq_some hFind)
    have hText : plain (m.nameOf j) = plain (m.nameOf i) := by
      simpa [hState hj] using List.find?_some hFind
    rw [Option.map_some, hState hj, h j hj i hi hText]

/-- **If texts tell states apart, the log gives back the stack.** -/
theorem Consistent.readBack (h : m.Consistent ref) (hApart : m.TellsApart plain) :
    m.readBack plain (Tale.of (fun _ => plain) m.stack) = m.stack := by
  let find (text : String) : Option Value :=
    (m.states.find? fun s => plain s.name = text).map State.name
  calc m.readBack plain (Tale.of (fun _ => plain) m.stack)
      = ((Tale.of (fun _ => plain) m.stack).map Prod.fst).filterMap find := by
        rw [List.filterMap_map]
        rfl
    _ = m.stack.filterMap (find ∘ plain) := by rw [texts_told, List.filterMap_map]
    _ = m.stack.filterMap some := by
        -- every name in the stack is declared, so its text is read back as that name
        refine List.filterMap_congr fun name hName => ?_
        obtain ⟨i, hi, rfl⟩ := h.visited name hName
        exact hApart.find? hi
    _ = m.stack := List.filterMap_some

/-- **And the visits of every state.** -/
theorem Consistent.visits_told (h : m.Consistent ref) (hApart : m.TellsApart plain) {i : Nat}
    (hi : i < m.states.length) :
    (Tale.of (fun _ => plain) m.stack).visits (plain (m.nameOf i)) = (m.state i).visits.length := by
  -- the last entry for a text carries the number, so the names are taken from the end
  have hCount (names : List Value) (hNames : ∀ name ∈ names, ∃ j < m.states.length,
      name = m.nameOf j) : (Tale.of (fun _ => plain) names).visits (plain (m.nameOf i)) =
        names.countP fun other => other.eqv (m.nameOf i) := by
    induction names using List.reverseRecOn with
    | nil => rfl
    | append_singleton names name ih =>
      have hRest := ih fun name hName => hNames name (List.mem_append_left _ hName)
      obtain ⟨j, hj, rfl⟩ := hNames name (List.mem_append_right _ List.mem_cons_self)
      rw [Tale.visits, Tale.of_concat, List.reverse_concat, List.find?_cons]
      by_cases hij : j = i
      · subst hij
        simp
      · have hText : plain (m.nameOf j) ≠ plain (m.nameOf i) := fun hText =>
          hij (hApart j hj i hi hText)
        have hEqv : (m.nameOf j).eqv (m.nameOf i) = false := h.distinct j hj i hi hij
        simp only [hText, decide_false, List.countP_append, List.countP_singleton, hEqv]
        exact hRest
  rw [hCount m.stack h.visited, h.visits i hi, positions, List.length_findIdxs]

end Machine

end RuleMachine
