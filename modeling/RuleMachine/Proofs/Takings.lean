import RuleMachine.Proofs.Tables

/-!
# What readings take

A reading may take items out of streams, and it makes no streams. What it leaves was there before,
so whatever is true of all items in streams stays true of what is left.

* `Streams.LeftOf`: what may be left of streams.
* `Reading.Takes`: readings that leave no more than that.
* `readTable_takes`: reading a table is one of them.
-/

namespace RuleMachine

/-- Whether streams are what is left of other streams. -/
structure Streams.LeftOf (s' s : Streams) : Prop where
  length : s'.left.length = s.left.length
  mem : ∀ (id : Nat) (v : Value), v ∈ s'.rest id → v ∈ s.rest id

namespace Streams.LeftOf

variable {s s' s'' : Streams}

theorem refl (s : Streams) : s.LeftOf s := ⟨rfl, fun _ _ h => h⟩

theorem trans (h : s''.LeftOf s') (h' : s'.LeftOf s) : s''.LeftOf s :=
  ⟨h.length.trans h'.length, fun id v hv => h'.mem id v (h.mem id v hv)⟩

/-- Taking items leaves the others. -/
theorem take (s : Streams) (v : Value) (count : Nat) : (s.take v count).LeftOf s := by
  cases v with
  | stream other =>
    refine ⟨List.length_modify .., fun id item h => ?_⟩
    -- only one stream is changed, and it loses its first items
    unfold Streams.take Streams.rest at h
    rw [List.getElem?_modify] at h
    unfold Streams.rest
    cases hItems : s.left[id]? with
    | none =>
      rw [hItems] at h
      exact h
    | some items =>
      rw [hItems] at h
      change item ∈ (if other = id then List.drop count items else items) at h
      split at h
      · exact List.mem_of_mem_drop h
      · exact h
  | _ => exact .refl s

end Streams.LeftOf

/-- Whether a reading leaves in streams only what was there. -/
def Reading.Takes {ε α : Type} (r : Reading ε α) : Prop := ∀ s : Streams, (r.result s).2.LeftOf s

namespace Reading.Takes

variable {ε ε' α β : Type}

theorem pure (a : α) : Takes (Pure.pure a : Reading ε α) := fun s => .refl s

theorem throw (e : ε) : Takes (MonadExcept.throw e : Reading ε α) := fun s => .refl s

theorem ofExcept (r : Except ε α) : Takes (Reading.ofExcept r) := fun s => .refl s

/-- One reading after the other takes, if both do. -/
theorem bind {x : Reading ε α} {k : α → Reading ε β} (hx : x.Takes) (hk : ∀ a, (k a).Takes) :
    (x >>= k).Takes := by
  intro s
  have hFirst := hx s
  rw [result_bind]
  rcases hResult : x.result s with ⟨e | a, t⟩
  · rw [hResult] at hFirst
    exact hFirst
  · rw [hResult] at hFirst
    exact (hk a t).trans hFirst

theorem mapProblem {x : Reading ε α} (hx : x.Takes) (f : ε → ε') : (x.mapProblem f).Takes := hx

end Reading.Takes

section

open Reading (Takes)

variable {ε : Type}

/-- Asking for items drains a stream, and any other value none. -/
theorem readItems?_takes (v : Value) : Takes (readItems? v : Reading ε (Option (List Value))) := by
  intro s
  rw [result_readItems?]
  split
  · exact .refl s
  · exact .take s v _

/-- Reading pairs asks for items once and takes nothing else. -/
theorem readPairs_takes (v : Value) (notPairs : ε) (notPair : Nat → Value → ε) :
    Takes (readPairs v notPairs notPair) := by
  intro s
  rw [result_readPairs]
  split
  · exact .refl s
  · exact .take s v _

/-- Reading action lists asks for items at most once. -/
theorem readActions_takes (v : Value) : Takes (readActions v) := by
  unfold readActions
  split
  · exact .pure _
  · exact .pure _
  · refine (readItems?_takes _).bind fun items => ?_
    cases items with
    | none => exact .throw _
    | some items => exact .ofExcept _

/-- Reading a rule reads one action list, at most. -/
theorem readRule_takes (source targetName : Value) (target : StateRef) (spec : Value) :
    Takes (readRule source targetName target spec) := by
  refine Takes.mapProblem ?_ _
  have hActions (v : Value) : Takes ((readActions v).mapProblem RuleProblem.actions) :=
    (readActions_takes v).mapProblem _
  unfold readRuleTo
  split
  · exact (Takes.ofExcept _).bind fun record => (hActions _).bind fun _ => .pure _
  · exact .throw _
  · exact .throw _
  · exact (hActions _).bind fun _ => .pure _
  · exact (hActions _).bind fun _ => .pure _
  · exact .pure _

theorem readActionsAt_takes (place : ActionPlace) (v : Value) : Takes (readActionsAt place v) :=
  (readActions_takes v).mapProblem _

theorem readRulePairs_takes (source spec : Value) : Takes (readRulePairs source spec) := by
  unfold readRulePairs
  split
  · exact .pure _
  · exact .pure _
  · exact readPairs_takes _ _ _

/-- Reading the rules of a state reads them one by one. -/
theorem readRules_takes (m : Machine) (self : MachineRef) (source : Value)
    (pairs : List (Value × Value)) : Takes (readRules m self source pairs) := by
  induction pairs with
  | nil => exact .pure _
  | cons pair rest ih =>
    obtain ⟨target, spec⟩ := pair
    unfold readRules
    split
    · exact (readRule_takes _ _ _ _).bind fun _ => ih.bind fun _ => .pure _
    · exact .throw _

theorem readAllRules_takes (m : Machine) (self : MachineRef) (ds : List Declaration) :
    Takes (readAllRules m self ds) := by
  induction ds with
  | nil => exact .pure _
  | cons d rest ih =>
    refine (readRulePairs_takes _ _).bind fun pairs => ?_
    exact (readRules_takes _ _ _ _).bind fun _ => ih.bind fun _ => .pure _

theorem readEntries_takes (table : Value) : Takes (readEntries table) := by
  unfold readEntries
  split
  · exact .pure _
  · exact readPairs_takes _ _ _

theorem readDeclaration_takes (declared : List Value) (name definition : Value) :
    Takes (readDeclaration declared name definition) := by
  refine (Takes.ofExcept _).bind fun _ => (Takes.ofExcept _).bind fun _ => ?_
  refine (readActionsAt_takes _ _).bind fun _ => (readActionsAt_takes _ _).bind fun _ => ?_
  exact (readActionsAt_takes _ _).bind fun _ => .pure _

/-- Reading declarations reads three action lists for each of them. -/
theorem readDeclarations_takes (declared : List Value) (entries : List (Value × Value)) :
    Takes (readDeclarations declared entries) := by
  induction entries generalizing declared with
  | nil => exact .pure _
  | cons entry rest ih =>
    obtain ⟨name, definition⟩ := entry
    exact (readDeclaration_takes _ _ _).bind fun _ => (ih _).bind fun _ => .pure _

/-- **Reading a table leaves in streams only what was there.** -/
theorem readTable_takes (self : MachineRef) (table : Value) : Takes (readTable self table) := by
  refine (readEntries_takes table).bind fun entries => ?_
  refine (readDeclarations_takes [] entries).bind fun ds => ?_
  exact (readAllRules_takes _ self ds).bind fun _ => .pure _

end

end RuleMachine
