import RuleMachine.Proofs.Refusals
import RuleMachine.Proofs.Within

/-!
# What rules lead to

What is not there yet cannot be mentioned. So of the states of a machine that is being built none is
mentioned in its table, and each rule leads to a state that was referred to by its name. States that
have states for names are not referred to like that.

Main statement: `readTable_callable`.
-/

namespace RuleMachine

variable {known : Value → Prop}

/-- Whether a value mentions only states of machines before some machine. What is not there yet
cannot be mentioned. -/
def Value.Precedes (self : MachineRef) : Value → Prop :=
  Within fun r => ∀ s, r = .state s → s.machine < self

/-- Whether streams contain only states of machines that were built before a certain one. -/
def Streams.Precede (self : MachineRef) (s : Streams) : Prop :=
  ∀ id, ∀ v ∈ s.rest id, v.Precedes self

/-- Whether every rule leads to a state that can be referred to by its name. States cannot if their
names are states. -/
def Machine.Callable (m : Machine) (rules : List Rule) : Prop :=
  ∀ rule ∈ rules, (m.nameOf rule.target.index).state? = none

section

open Reading (Drains)
open Value (Within)

variable {self : MachineRef}

/-- What a value refers to that mentions no state of this machine. -/
theorem Machine.state?_of_resolve? {m : Machine} {v : Value} {index : Nat} (hv : v.Precedes self)
    (h : m.resolve? self v = some index) : (m.nameOf index).state? = none := by
  have hValue (ref : StateRef) : v ≠ .state ref := by
    rintro rfl
    have hForeign : ref.machine ≠ self :=
      Nat.ne_of_lt (Value.within_state.mp hv ref rfl)
    have hNone : m.resolve? self (.state ref) = none := if_neg fun hOwn => hForeign hOwn.1
    rw [hNone] at h
    cases h
  rw [resolve?_of_ne hValue] at h
  unfold find? at h
  split at h
  · obtain ⟨hLt, hName, -⟩ := List.findIdx?_eq_some_iff_getElem.mp h
    rw [nameOf, state, List.getElem?_eq_getElem hLt, Option.getD_some]
    cases hState : m.states[index].name with
    | state ref =>
      rw [hState, Value.eqv_comm rfl] at hName
      exact absurd (Value.eq_state_of_eqv hName) (hValue ref)
    | _ => rfl
  · cases h

/-- The rules that are read for a state lead to such states, as their targets are found by name. -/
theorem readRules_callable {m : Machine} {source : Value} {pairs : List (Value × Value)}
    (hPairs : Entries.Both (Value.Precedes self) pairs) :
    Drains known m.Callable (readRules m self source pairs) := by
  induction pairs with
  | nil => exact .pure (List.forall_mem_nil _)
  | cons pair rest ih =>
    obtain ⟨target, spec⟩ := pair
    obtain ⟨hFirst, hRest⟩ := List.forall_mem_cons.mp hPairs
    unfold readRules
    split
    · rename_i index hIndex
      have hRule : Drains known (fun rule => rule.target.index = index)
          (readRule source (m.nameOf index) { machine := self, index } spec) := by
        refine fun s hs => ⟨hs.of_takes (readRule_takes _ _ _ _), fun rule hRule => ?_⟩
        exact congrArg StateRef.index (readRule_target (Prod.ext hRule rfl))
      refine hRule.bind fun rule hTarget => (ih hRest).bind fun others hOthers => ?_
      refine .pure (List.forall_mem_cons.mpr ⟨?_, hOthers⟩)
      rw [hTarget]
      exact Machine.state?_of_resolve? hFirst.1 hIndex
    · exact .throw _

/-- So do the rules of all states, if the specifications mention earlier machines only. -/
theorem readAllRules_callable {m : Machine} {ds : List Declaration}
    (hRules : ∀ d ∈ ds, d.rules.Precedes self) :
    Drains (fun r => ∀ s, r = .state s → s.machine < self)
      (fun rules => ∀ rs ∈ rules, m.Callable rs)
      (readAllRules m self ds) := by
  induction ds with
  | nil => exact .pure (List.forall_mem_nil _)
  | cons d rest ih =>
    obtain ⟨hFirst, hRest⟩ := List.forall_mem_cons.mp hRules
    refine (readRulePairs_drains hFirst d.name).bind fun pairs hPairs => ?_
    refine (readRules_callable hPairs).bind fun rules hCallable => ?_
    exact (ih hRest).bind fun others hOthers =>
      .pure (List.forall_mem_cons.mpr ⟨hCallable, hOthers⟩)

/-- **Each rule in a table leads to a state that can be referred to by its name,** as no state of
the machine was there to be mentioned when the table was read. -/
theorem readTable_callable {table : Value} {m : Machine} {s s' : Streams}
    (hTable : table.Precedes self) (hs : s.Precede self)
    (h : (readTable self table).result s = (.ok m, s')) :
    ∀ i < m.states.length, m.Callable (m.state i).rules := by
  unfold readTable at h
  obtain ⟨entries, t, hEntries, h⟩ := Reading.bind_eq_ok.mp h
  obtain ⟨ds, t', hDeclarations, h⟩ := Reading.bind_eq_ok.mp h
  obtain ⟨rules, _, hRules, h⟩ := Reading.bind_eq_ok.mp h
  obtain rfl : Machine.withRules ds rules = m := Except.ok.inj (congrArg Prod.fst h)
  obtain ⟨ht, hPairs⟩ := readEntries_drains hTable s hs
  rw [hEntries] at ht hPairs
  obtain ⟨ht', hKnown⟩ := readDeclarations_drains (hPairs entries rfl) [] t ht
  rw [hDeclarations] at ht' hKnown
  obtain ⟨-, hCallable⟩ := readAllRules_callable (m := .ofDeclarations ds)
    (fun d hd => (hKnown ds rfl d hd).rules) t' ht'
  rw [hRules] at hCallable
  obtain ⟨hLength, hTargets⟩ := readAllRules_targets hRules
  intro i hi rule hRule
  rw [Machine.length_withRules hLength] at hi
  rw [Machine.state_withRules hLength i hi] at hRule
  have hMem : rules[i] ∈ rules := List.getElem_mem _
  have hName := hCallable rules rfl rules[i] hMem rule hRule
  obtain ⟨-, hIndex⟩ := hTargets rules[i] hMem rule hRule
  rw [Machine.nameOf, Machine.state] at hName
  simp only [Machine.ofDeclarations, Machine.ofStates, List.length_map] at hIndex
  rw [Machine.nameOf, Machine.state_withRules hLength _ hIndex]
  simpa [Machine.ofDeclarations, Machine.ofStates, hIndex] using hName

end

end RuleMachine
