import RuleMachine.Engine.Build
import RuleMachine.Proofs.Consistency
import RuleMachine.Proofs.Plans

/-!
# The order of an entry

Entering a state takes five kinds of deeds in a fixed order: the exit actions of the source, the
actions of the rule, the commitment, the enter actions and the body of the target. The source is
the state that was current at the beginning, and it stays the source whatever the actions do.

What an entry does is the beginning of this plan, up to the first failure.

Main statement: `World.Entry.byPlan`, for every entry that an operation can make.
-/

namespace RuleMachine

-- ---------------------------------------------------------------------------
-- The plan of an entry
-- ---------------------------------------------------------------------------

/-- Calls of functions in order, all with the same arguments. -/
def calls (functions : List FunctionName) (args : List Value) : List Act :=
  functions.map fun f => .call f args

namespace World

/-- The exit actions of a state that is left, if there is one. -/
def exits (w : World) : Option StateRef → List Act
  | some s => calls (w.state s).onExit [.state s]
  | none => []

/-- What an entry takes before the commitment: the exit actions of the state that is current, if
there is one, with that state, and the actions of the rule with that state and the target. -/
def departure (w : World) (target : StateRef) (actions : List FunctionName) : List Act :=
  let source := w.current? target.machine
  w.exits source ++ calls actions [(source.map Value.state).getD .null, .state target]

/-- What it takes after the commitment: the enter actions of the target and its body, with the
target. -/
def arrival (w : World) (target : StateRef) : List Act :=
  calls (w.state target).onEnter [.state target] ++ calls (w.state target).body [.state target]

/-- All that it takes to enter a state. -/
def plan (w : World) (target : StateRef) (actions : List FunctionName) : List Act :=
  w.departure target actions ++ .perform (.commit target) :: w.arrival target

end World

namespace Follows

variable {handler : Handler}

/-- An action list follows the plan of its calls. -/
theorem runActions (functions : List FunctionName) (args : List Value) (w : World) :
    Follows handler w (calls functions args) (fun _ => True) (Run.runActions functions args) := by
  induction functions generalizing w with
  | nil => exact ret trivial
  | cons f rest ih => exact (call f args).bind fun _ w' _ _ => ih w'

/-- The actions of a slot are called with the state that declares them. -/
theorem runSlot (s : StateRef) (slot : ActionSlot) (w : World) :
    Follows handler w (calls ((w.state s).actions slot) [.state s]) (fun _ => True)
      (Run.runSlot s slot) :=
  look rfl (runActions _ _ w)

/-- The actions are those that the state had all along. -/
theorem runSlot_later {w w' : World} (h : w.SameTables w') {s : StateRef} (hs : w.declares s)
    (slot : ActionSlot) :
    Follows handler w' (calls ((w.state s).actions slot) [.state s]) (fun _ => True)
      (Run.runSlot s slot) := by
  rw [← h.actions hs slot]
  exact runSlot s slot w'

/-- Leaving is the calls of the exit actions, if there is a state to leave. -/
theorem leave (source : Option StateRef) (w : World) :
    Follows handler w (w.exits source) (fun _ => True) (Run.leave source) := by
  cases source with
  | some s => exact runSlot s .onExit w
  | none => exact ret trivial

/-- **Entering a state carries out the plan of the entry**, which is made when it begins. -/
theorem enter {w : World} {target : StateRef} (hTarget : w.declares target)
    (actions : List FunctionName) :
    Follows handler w (w.plan target actions) (· = target) (Run.enter target actions) := by
  -- one part of the plan for each part of the program
  have hPlan : w.plan target actions =
      w.exits (w.current? target.machine) ++
        (calls actions [((w.current? target.machine).map Value.state).getD .null, .state target] ++
          ([.perform (.commit target)] ++
            (calls (w.state target).onEnter [.state target] ++
              (calls (w.state target).body [.state target] ++ [])))) := by
    simp only [World.plan, World.departure, World.arrival, List.append_assoc, List.append_nil,
      List.singleton_append]
  rw [hPlan]
  refine look rfl ?_
  refine (leave _ w).bind fun _ w₁ _ h₁ => ?_
  refine (runActions _ _ w₁).bind fun _ w₂ _ h₂ => ?_
  refine (commit target).bind fun _ w₃ _ h₃ => ?_
  -- what has happened so far may be anything, but the target has the actions that it had
  have hw₃ : w.SameTables w₃ := (h₁.trans h₂).trans h₃
  refine (runSlot_later hw₃ hTarget .onEnter).bind fun _ w₄ _ h₄ => ?_
  refine (runSlot_later (hw₃.trans h₄) hTarget .body).bind fun _ w₅ _ _ => ?_
  exact ret rfl

end Follows

-- ---------------------------------------------------------------------------
-- The commitment
-- ---------------------------------------------------------------------------

/-- What committing to a state makes of a world. -/
structure World.Commitment (w w' : World) (s : StateRef) : Prop where
  /-- A visit without result or message is appended to the history. -/
  history : (w'.machine s.machine).history =
    (w.machine s.machine).history ++
      [{ name := (w.state s).name, result := .null, message := .null }]
  /-- Its position is noted by the state. -/
  visits : (w'.state s).visits = (w.state s).visits ++ [(w.machine s.machine).history.length]
  /-- The state is current. -/
  current : w'.current? s.machine = some s
  /-- All this is logged, with the number of the visit. -/
  log : w'.log = w.log.push
    { event := .record s.machine
        (.entered (w'.plain (w'.state s).name) ((w.state s).visits.length + 1))
      machines := w.bound }
  /-- The other states of the machine are as they were. -/
  states : ∀ i ≠ s.index, (w'.machine s.machine).state i = (w.machine s.machine).state i
  /-- So are the other machines. -/
  machines : ∀ ref ≠ s.machine, w'.machine ref = w.machine ref

/-- To enter a declared state is to commit to it: one visit more, one line in the log, and no other
state or machine touched. -/
theorem World.commitment {w : World} {s : StateRef} (h : w.declares s) :
    w.Commitment (w.commit s) s := by
  have hIndex : s.index < (w.machine s.machine).states.length := declares_iff.mp h
  have hMachine : (w.commit s).machine s.machine = (w.machine s.machine).enter s.index := by
    rw [commit, if_pos h]
    exact machine_modifyMachine_self (fun m => m.enter s.index) (lt_of_declares h)
  have hVisits : ((w.commit s).state s).visits =
      (w.state s).visits ++ [(w.machine s.machine).history.length] := by
    rw [state, hMachine, Machine.visits_enter hIndex, if_pos rfl, state]
  exact
    { history := by
        rw [hMachine, Machine.enter_of_lt hIndex]
        rfl
      visits := hVisits
      current := by rw [current?, hMachine, Machine.current_enter hIndex]; rfl
      -- the number in the log is that of the visit just made
      log := by
        rw [← List.length_singleton, ← List.length_append, ← hVisits, commit, if_pos h]
        simp only [record, plain_emit]
        rfl
      states := fun i hi => by
        rw [hMachine, Machine.enter_of_lt hIndex]
        simp only [Machine.state, List.getElem?_modify, if_neg hi.symm, id_map']
      machines := fun ref hRef => by
        rw [commit, if_pos h]
        exact machine_modifyMachine_ne w _ hRef.symm }

-- ---------------------------------------------------------------------------
-- Entries of operations
-- ---------------------------------------------------------------------------

/-- The entries that operations make in a world, by their targets and the actions on the way: a
start, a jump, and following a rule of a state. -/
inductive World.Entry (w : World) : StateRef → List FunctionName → Prop
  | start {m : MachineRef} {first : StateRef} {rest : List StateRef}
    (h : (Query.states m).answer w = .ok (first :: rest)) : Entry w first []
  | jump {m : MachineRef} {v : Value} {target : StateRef}
    (h : (Query.resolve m v).answer w = .ok (some target)) : Entry w target []
  | rule {s : StateRef} {rule : Rule} (hs : w.declares s) (hRule : rule ∈ (w.state s).rules) :
    Entry w rule.target rule.actions

/-- What is entered is a state of a table. -/
theorem World.Entry.declares {w : World} {target : StateRef} {actions : List FunctionName}
    (hEntry : w.Entry target actions) (h : ∀ ref, (w.machine ref).Consistent ref) :
    w.declares target := by
  -- a first state is in the list, a resolved one has an index, and the target of a rule is declared
  cases hEntry with
  | @start m _ rest hStates =>
    have hMem : target ∈ target :: rest := List.mem_cons_self
    rw [← Except.ok.inj hStates, List.mem_map] at hMem
    obtain ⟨i, hi, rfl⟩ := hMem
    exact World.declares_iff.mpr (by simpa using hi)
  | jump hResolve =>
    obtain ⟨i, hi, rfl⟩ := Option.map_eq_some_iff.mp (Except.ok.inj hResolve)
    exact World.declares_iff.mpr (Machine.lt_of_resolve? hi)
  | @rule s rule hs hRule => exact ((h s.machine).declares_target hs hRule).2

/-- What an entry did, according to its plan. `c` is where the entry stands by then. -/
structure Lifecycle (w : World) (target : StateRef) (actions : List FunctionName)
    (ds : List Deed) (c : Config (Except Fault StateRef)) : Prop where
  /-- What was done, and what is about to be done, begins the plan. -/
  order : ds.map Deed.act ++ c.program.pending <+: w.plan target actions
  /-- Nothing else has happened to the world. -/
  linked : Config.Linked w ds c.world
  /-- Nothing is done after a failure. -/
  stops : ∀ d ∈ ds.dropLast, d.failure = none
  /-- An entry that has not ended has not failed. -/
  running : (∀ r, c.program ≠ .ret r) → ∀ d ∈ ds, d.failure = none
  /-- An entry that has ended returns the target exactly if nothing failed. -/
  returned : ∀ r, c.program = .ret r → (r = .ok target ↔ ∀ d ∈ ds, d.failure = none)
  /-- Then all of the plan was done. -/
  complete : ∀ s, c.program = .ret (.ok s) → ds.map Deed.act = w.plan target actions
  /-- An entry that has ended fails exactly if the last deed did, and with the same failure. -/
  raised : ∀ r, c.program = .ret r →
    ∀ fault, r = .error fault ↔ ∃ d, ds.getLast? = some d ∧ d.failure = some fault
  /-- An entry that has ended has committed to the target exactly if everything before the
  commitment was done without failure. -/
  committed : ∀ r, c.program = .ret r →
    ((∃ d ∈ ds, d.act = .perform (.commit target)) ↔
      w.departure target actions <+: ds.map Deed.act ∧
        ∀ d ∈ ds.take (w.departure target actions).length, d.failure = none)
  /-- Committing does not fail, and does what it should. -/
  commitment : ∀ d ∈ ds, d.act = .perform (.commit target) →
    d.failure = none ∧ d.before.Commitment d.after target

theorem mem_calls {functions : List FunctionName} {args : List Value} {a : Act}
    (h : a ∈ calls functions args) : ∃ f, a = .call f args := by
  obtain ⟨f, -, rfl⟩ := List.mem_map.mp h
  exact ⟨f, rfl⟩

/-- There is no commitment in a departure. -/
theorem World.commit_notMem_departure (w : World) (target s : StateRef)
    (actions : List FunctionName) : .perform (.commit s) ∉ w.departure target actions := by
  intro h
  -- before the commitment there are exit actions and actions of the rule, calls all of them
  rcases List.mem_append.mp h with h | h
  · cases hSource : w.current? target.machine with
    | none =>
      rw [hSource] at h
      exact List.not_mem_nil h
    | some source =>
      rw [hSource] at h
      obtain ⟨f, hf⟩ := mem_calls h
      cases hf
  · obtain ⟨f, hf⟩ := mem_calls h
    cases hf

section

variable {w : World} {target : StateRef} {actions : List FunctionName} {ds : List Deed}

/-- What has a commitment among it has all of the departure before. -/
theorem World.departure_lt (hOrder : ds.map Deed.act <+: w.plan target actions)
    (h : ∃ d ∈ ds, d.act = .perform (.commit target)) :
    (w.departure target actions).length < ds.length := by
  -- were there no more deeds than the departure has acts, all of them would be calls
  by_contra hShort
  obtain ⟨d, hd, hAct⟩ := h
  have hPrefix : ds.map Deed.act <+: w.departure target actions := by
    refine List.prefix_of_prefix_length_le hOrder (List.prefix_append _ _) ?_
    rw [List.length_map]
    exact Nat.not_lt.mp hShort
  refine w.commit_notMem_departure target target actions (hPrefix.subset ?_)
  rw [← hAct]
  exact List.mem_map_of_mem hd

/-- What goes beyond the departure has the commitment among it. -/
theorem World.exists_commit (hOrder : ds.map Deed.act <+: w.plan target actions)
    (h : (w.departure target actions).length < ds.length) :
    ∃ d ∈ ds, d.act = .perform (.commit target) := by
  have hUpTo : w.departure target actions ++ [.perform (.commit target)] <+:
      w.plan target actions := by
    rw [World.plan, List.prefix_append_right_inj]
    exact List.prefix_append [_] _
  have hPrefix : w.departure target actions ++ [.perform (.commit target)] <+:
      ds.map Deed.act := by
    refine List.prefix_of_prefix_length_le hUpTo hOrder ?_
    rw [List.length_append, List.length_singleton, List.length_map]
    exact h
  exact List.mem_map.mp (hPrefix.subset (List.mem_append_right _ List.mem_cons_self))

/-- **The commitment is among the deeds of an entry that ended exactly if everything before it was
done without failure.** -/
theorem Abides.committed {r : Except Fault StateRef}
    (h : Abides (w.plan target actions) (· = target) ds (.ret r)) :
    (∃ d ∈ ds, d.act = .perform (.commit target)) ↔
      w.departure target actions <+: ds.map Deed.act ∧
        ∀ d ∈ ds.take (w.departure target actions).length, d.failure = none := by
  have hOrder : ds.map Deed.act <+: w.plan target actions := by
    simpa only [Program.pending_ret, List.append_nil] using h.order
  constructor
  · intro hCommit
    have hLength := World.departure_lt hOrder hCommit
    constructor
    · refine List.prefix_of_prefix_length_le (List.prefix_append _ _) hOrder ?_
      rw [List.length_map]
      exact Nat.le_of_lt hLength
    · intro d hd
      refine h.stops d ?_
      rw [List.dropLast_eq_take]
      exact (List.take_prefix_take_left (by omega)).subset hd
  · rintro ⟨hDeparture, hFine⟩
    apply World.exists_commit hOrder
    cases r with
    | ok s =>
      obtain ⟨-, hPlan, -⟩ := h.of_ok
      rw [← List.length_map (f := Deed.act), hPlan, World.plan, List.length_append,
        List.length_cons]
      omega
    | error fault =>
      -- if everything done were before the commitment, none of it would have failed
      by_contra hShort
      rw [List.take_of_length_le (Nat.not_lt.mp hShort)] at hFine
      obtain ⟨d, hLast, hFailure⟩ := h.of_error
      rw [hFine d (List.mem_of_getLast? hLast)] at hFailure
      cases hFailure

/-- What goes according to the plan of an entry is as an entry should be. -/
theorem Abides.lifecycle {handler : Handler} (hTarget : w.declares target)
    {c : Config (Except Fault StateRef)}
    (hDid : (Config.begin (Run.enter target actions) w).Did handler ds c)
    (h : Abides (w.plan target actions) (· = target) ds c.program) :
    Lifecycle w target actions ds c where
  order := h.order
  linked := hDid.linked
  stops := h.stops
  running := h.running
  returned r hr := by
    rw [hr] at h
    cases r with
    | ok s =>
      obtain ⟨rfl, -, hFine⟩ := h.of_ok
      exact ⟨fun _ => hFine, fun _ => rfl⟩
    | error fault =>
      obtain ⟨d, hLast, hFailure⟩ := h.of_error
      refine ⟨fun h => by (cases h), fun hFine => ?_⟩
      rw [hFine d (List.mem_of_getLast? hLast)] at hFailure
      cases hFailure
  -- an answer means that the plan was carried out in full
  complete s hs := by
    rw [hs] at h
    exact h.of_ok.2.1
  raised r hr fault := by
    rw [hr] at h
    cases r with
    | ok s =>
      refine ⟨fun h => by (cases h), ?_⟩
      rintro ⟨d, hLast, hFailure⟩
      rw [h.of_ok.2.2 d (List.mem_of_getLast? hLast)] at hFailure
      cases hFailure
    | error fault' =>
      obtain ⟨d, hLast, hFailure⟩ := h.of_error
      simp only [hLast, hFailure, Option.some.injEq, exists_eq_left', Except.error.injEq]
  committed r hr := by
    rw [hr] at h
    exact h.committed
  -- tables do not change on the way, so the target is still declared when it is entered
  commitment d hd hAct := by
    obtain ⟨hAfter, hFailure⟩ := hDid.of_perform hd hAct
    obtain ⟨ds₁, c₁, hBefore, hWorld⟩ := hDid.before hd
    have hSame := hBefore.leads.sameTables
    rw [hWorld] at hSame
    rw [hAfter]
    exact ⟨hFailure, World.commitment (hSame.declares hTarget)⟩

end

/-- Whether the entry of a state goes by its plan. -/
structure World.EntersByPlan (handler : Handler) (w : World) (target : StateRef)
    (actions : List FunctionName) : Prop where
  /-- Each moment of the entry is one of its own or one during a call that it made. -/
  moments : ∀ n, ∃ ds c', (Config.begin (Run.enter target actions) w).Did handler ds c' ∧
    c'.During handler ((Config.begin (Run.enter target actions) w).after .standard handler n)
  /-- What it does itself is as an entry should be. -/
  lifecycle : ∀ ds c', (Config.begin (Run.enter target actions) w).Did handler ds c' →
    Lifecycle w target actions ds c'

/-- **Every entry goes by its plan, up to the first failure,** whatever functions do. -/
theorem World.Entry.byPlan {w : World} {target : StateRef} {actions : List FunctionName}
    (hEntry : w.Entry target actions) (h : ∀ ref, (w.machine ref).Consistent ref)
    (handler : Handler) : w.EntersByPlan handler target actions where
  moments := (Config.begin (Run.enter target actions) w).did_after
  lifecycle ds c' hDid :=
    (Follows.enter (hEntry.declares h) actions ds c' hDid).lifecycle (hEntry.declares h) hDid

end RuleMachine
