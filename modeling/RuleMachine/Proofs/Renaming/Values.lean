import RuleMachine.Proofs.Renaming.Numbers
import RuleMachine.Script.Expr

/-!
# Values under new numbers

A value may contain NaNs, streams and references to machines and their states. Which numbers these
have makes no difference to anything but themselves: values that differ by a renaming are equal
alike and sort alike.

Main statements: `Value.eqv_rename`, what is the same key stays the same key; and `sortKeys_rename`,
keys sort alike.
-/

namespace RuleMachine

/-- A state stays at its place, in the machine with the new number. -/
def StateRef.rename (ρ : Renaming) (s : StateRef) : StateRef :=
  { s with machine := ρ .machine s.machine }

/-- Different states stay different, as different machines do. -/
theorem StateRef.rename_injective (ρ : Renaming) : Function.Injective (rename ρ) := by
  intro s t h
  obtain ⟨hMachine, hIndex⟩ := StateRef.mk.inj h
  exact congrArg₂ StateRef.mk ((ρ .machine).injective hMachine) hIndex

namespace Value

mutual

/-- A value with everything in it renamed that has a number. -/
def rename (ρ : Renaming) (v : Value) : Value :=
  match v with
  | nan tag => nan (ρ .nan tag)
  | stream id => stream (ρ .stream id)
  | state ref => state (ref.rename ρ)
  | machine ref => machine (ρ .machine ref)
  | list items => list (renameAll ρ items)
  | tuple items => tuple (renameAll ρ items)
  | map entries => map (renameEntries ρ entries)
  | set items => set (renameAll ρ items)
  | v => v

def renameAll (ρ : Renaming) (items : List Value) : List Value :=
  match items with
  | [] => []
  | v :: rest => rename ρ v :: renameAll ρ rest

def renameEntries (ρ : Renaming) (entries : List (Value × Value)) : List (Value × Value) :=
  match entries with
  | [] => []
  | (k, v) :: rest => (rename ρ k, rename ρ v) :: renameEntries ρ rest

end

variable (ρ : Renaming)

/-- Lists are renamed item by item. The nested recursion is needed for its termination only. -/
theorem renameAll_eq (items : List Value) : renameAll ρ items = items.map (rename ρ) := by
  induction items with
  | nil => rfl
  | cons v rest ih => rw [renameAll, ih, List.map_cons]

/-- A pair of values with both renamed. -/
def renamePair (e : Value × Value) : Value × Value := (e.1.rename ρ, e.2.rename ρ)

theorem renameEntries_eq (entries : List (Value × Value)) :
    renameEntries ρ entries = entries.map (renamePair ρ) := by
  induction entries with
  | nil => rfl
  | cons e rest ih => rw [renameEntries, ih, List.map_cons, renamePair]

/-! Containers are renamed item by item. -/

@[simp] theorem rename_list (items : List Value) :
    (list items).rename ρ = list (items.map (rename ρ)) := by
  rw [rename, renameAll_eq]

@[simp] theorem rename_tuple (items : List Value) :
    (tuple items).rename ρ = tuple (items.map (rename ρ)) := by
  rw [rename, renameAll_eq]

@[simp] theorem rename_set (items : List Value) :
    (set items).rename ρ = set (items.map (rename ρ)) := by
  rw [rename, renameAll_eq]

@[simp] theorem rename_map (entries : List (Value × Value)) :
    (map entries).rename ρ = map (entries.map (renamePair ρ)) := by
  rw [rename, renameEntries_eq]

mutual

/-- Without new numbers a value stays as it is. -/
@[simp] theorem rename_identity (v : Value) : v.rename .identity = v := by
  cases v with
  | list items => rw [rename_list, map_rename_identity items]
  | tuple items => rw [rename_tuple, map_rename_identity items]
  | set items => rw [rename_set, map_rename_identity items]
  | map entries => rw [rename_map, map_renamePair_identity entries]
  | _ => rfl

/-- Under the renaming that changes nothing everything stays, also inside of containers. -/
@[simp] theorem map_rename_identity (items : List Value) :
    items.map (rename .identity) = items := by
  cases items with
  | nil => rfl
  | cons v rest => rw [List.map_cons, rename_identity v, map_rename_identity rest]

@[simp] theorem map_renamePair_identity (entries : List (Value × Value)) :
    entries.map (renamePair .identity) = entries := by
  match entries with
  | [] => rfl
  | (k, v) :: rest =>
    rw [List.map_cons, renamePair, rename_identity k, rename_identity v,
      map_renamePair_identity rest]

end

-- ---------------------------------------------------------------------------
-- Kinds
-- ---------------------------------------------------------------------------

/-- Whether a value counts as true depends on its kind and its size, never on a number. -/
@[simp] theorem truthy_rename (v : Value) : (v.rename ρ).truthy = v.truthy := by
  cases v with
  | list | tuple | map | set => simp [truthy]
  | _ => rfl

@[simp] theorem typeName_rename (v : Value) : (v.rename ρ).typeName = v.typeName := by
  cases v <;> rfl

mutual

/-- What makes a value no key is a container in it, and containers stay containers. -/
@[simp] theorem unhashable?_rename (v : Value) : (v.rename ρ).unhashable? = v.unhashable? := by
  cases v with
  | tuple items => simpa [unhashable?] using unhashableItem?_rename items
  | _ => rfl

theorem unhashableItem?_rename (items : List Value) :
    unhashableItem? (items.map (rename ρ)) = unhashableItem? items := by
  cases items with
  | nil => rfl
  | cons v rest =>
    rw [List.map_cons, unhashableItem?, unhashable?_rename v, unhashableItem?_rename rest,
      unhashableItem?]

end

@[simp] theorem hashable_rename (v : Value) : (v.rename ρ).hashable = v.hashable := by
  rw [hashable, unhashable?_rename, hashable]

@[simp] theorem function?_rename (v : Value) : (v.rename ρ).function? = v.function? := by
  cases v <;> rfl

/-- A value that is a state stays one. -/
@[simp] theorem state?_rename (v : Value) :
    (v.rename ρ).state? = v.state?.map (StateRef.rename ρ) := by
  cases v <;> rfl

/-- A pair stays a pair, whether it is a list or a tuple. -/
@[simp] theorem pair?_rename (v : Value) : (v.rename ρ).pair? = v.pair?.map (renamePair ρ) := by
  cases v with
  | list items | tuple items => rcases items with _ | ⟨a, _ | ⟨b, _ | ⟨c, rest⟩⟩⟩ <;> rfl
  | _ => rfl

@[simp] theorem length?_rename (v : Value) : (v.rename ρ).length? = v.length? := by
  cases v with
  | list | tuple | map | set => simp [length?]
  | _ => rfl

-- ---------------------------------------------------------------------------
-- Equality and order
-- ---------------------------------------------------------------------------

mutual

/-- **What is the same key stays the same key.** -/
@[simp] theorem eqv_rename (v w : Value) : (v.rename ρ).eqv (w.rename ρ) = v.eqv w := by
  -- what has a number is equal to nothing but what has the same one, and renaming keeps numbers
  -- apart
  cases v with
  | nan s =>
    cases w with
    | nan t => exact (ρ .nan).injective.beq_eq
    | _ => simp [rename, eqv, quantity?]
  | stream s =>
    cases w with
    | stream t => exact (ρ .stream).injective.beq_eq
    | _ => simp [rename, eqv, quantity?]
  | state s =>
    cases w with
    | state t => exact (StateRef.rename_injective ρ).beq_eq
    | _ => simp [rename, eqv, quantity?]
  | machine m =>
    cases w with
    | machine n => exact (ρ .machine).injective.beq_eq
    | _ => simp [rename, eqv, quantity?]
  | list vs =>
    cases w with
    | list ws => simpa [eqv] using eqvAll_rename vs ws
    | _ => simp [rename, eqv, quantity?]
  | tuple vs =>
    cases w with
    | tuple ws => simpa [eqv] using eqvAll_rename vs ws
    | _ => simp [rename, eqv, quantity?]
  | map es =>
    cases w with
    | map fs => simp only [rename_map, eqv, eqvEntries_rename es fs, List.length_map]
    | _ => simp [rename, eqv, quantity?]
  | set vs =>
    cases w with
    | set ws => simp only [rename_set, eqv, eqvMembers_rename vs ws, List.length_map]
    | _ => simp [rename, eqv, quantity?]
  | _ => cases w <;> simp [rename, eqv, quantity?]

/-- Lists of keys are equal item by item. -/
theorem eqvAll_rename (vs ws : List Value) :
    eqvAll (vs.map (rename ρ)) (ws.map (rename ρ)) = eqvAll vs ws := by
  cases vs with
  | nil => cases ws <;> rfl
  | cons v vs =>
    cases ws with
    | nil => rfl
    | cons w ws => simp only [List.map_cons, eqvAll, eqv_rename v w, eqvAll_rename vs ws]

/-- Maps are equal if each entry of one is found in the other, and looking it up does not depend on
numbers. -/
theorem eqvEntries_rename (es fs : List (Value × Value)) :
    eqvEntries (es.map (renamePair ρ)) (fs.map (renamePair ρ)) = eqvEntries es fs := by
  match es with
  | [] => rfl
  | (k, v) :: es =>
    have hAny : ((fs.map (renamePair ρ)).any fun (k', v') =>
        eqv (k.rename ρ) k' && eqv (v.rename ρ) v') =
          fs.any fun (k', v') => eqv k k' && eqv v v' := by
      rw [List.any_map]
      refine congrArg fs.any (funext fun e => ?_)
      simp only [Function.comp, renamePair, eqv_rename k e.1, eqv_rename v e.2]
    rw [List.map_cons, renamePair, eqvEntries, hAny, eqvEntries_rename es fs, eqvEntries]

/-- Sets are equal if each member of one is found in the other. -/
theorem eqvMembers_rename (vs ws : List Value) :
    eqvMembers (vs.map (rename ρ)) (ws.map (rename ρ)) = eqvMembers vs ws := by
  match vs with
  | [] => rfl
  | v :: vs =>
    have hAny : ((ws.map (rename ρ)).any fun w => eqv (v.rename ρ) w) =
        ws.any fun w => eqv v w := by
      rw [List.any_map]
      exact congrArg ws.any (funext fun w => eqv_rename v w)
    rw [List.map_cons, eqvMembers, hAny, eqvMembers_rename vs ws, eqvMembers]

end

/-- Equality that a script asks for differs from equality of keys only in NaNs, and these stay NaNs.
-/
@[simp] theorem equal_rename (v w : Value) : (v.rename ρ).equal (w.rename ρ) = v.equal w := by
  cases v with
  | nan s =>
    cases w with
    | nan t => rfl
    | _ => simp [rename, equal, eqv, quantity?]
  | _ => exact eqv_rename ρ _ w

mutual

/-- What is ordered is numbers, texts and lists of these, and neither has a new number. -/
@[simp] theorem less?_rename (v w : Value) : less? (v.rename ρ) (w.rename ρ) = less? v w := by
  cases v with
  | list vs =>
    cases w with
    | list ws => simpa [less?] using lessAll?_rename vs ws
    | _ => simp [rename, less?, quantity?]
  | tuple vs =>
    cases w with
    | tuple ws => simpa [less?] using lessAll?_rename vs ws
    | _ => simp [rename, less?, quantity?]
  | _ => cases w <;> simp [rename, less?, quantity?]

theorem lessAll?_rename (vs ws : List Value) :
    lessAll? (vs.map (rename ρ)) (ws.map (rename ρ)) = lessAll? vs ws := by
  cases vs with
  | nil => cases ws <;> rfl
  | cons v vs =>
    cases ws with
    | nil => rfl
    | cons w ws =>
      simp only [List.map_cons, lessAll?, eqv_rename, less?_rename v w, lessAll?_rename vs ws]

end

@[simp] theorem kindRank_rename (v : Value) : (v.rename ρ).kindRank = v.kindRank := by
  cases v <;> rfl

/-- So keys are sorted alike. -/
@[simp] theorem keyLess_rename (v w : Value) :
    (v.rename ρ).keyLess (w.rename ρ) = v.keyLess w := by
  simp only [keyLess, less?_rename, kindRank_rename]

end Value

-- ---------------------------------------------------------------------------
-- Entries
-- ---------------------------------------------------------------------------

namespace Entries

variable (ρ : Renaming)

/-- The entries of a map with their keys and values renamed. -/
def rename (es : Entries) : Entries := es.map (Value.renamePair ρ)

/-- What is found under a key does not depend on numbers. -/
theorem get?_rename (es : Entries) (key : Value) :
    (es.rename ρ).get? (key.rename ρ) = (es.get? key).map (Value.rename ρ) := by
  induction es with
  | nil => rfl
  | cons e rest ih =>
    rw [rename, List.map_cons, Value.renamePair, get?, Value.eqv_rename, ← rename, ih, get?]
    split <;> rfl

/-- An equal key is met at the same place, so it keeps its own form in both cases. -/
theorem insert_rename (es : Entries) (key v : Value) :
    (es.rename ρ).insert (key.rename ρ) (v.rename ρ) = (es.insert key v).rename ρ := by
  induction es with
  | nil => rfl
  | cons e rest ih =>
    rw [rename, List.map_cons, Value.renamePair, insert, Value.eqv_rename, ← rename, ih, insert]
    split <;> rfl

theorem erase_rename (es : Entries) (key : Value) :
    (es.rename ρ).erase (key.rename ρ) = (es.erase key).rename ρ := by
  induction es with
  | nil => rfl
  | cons e rest ih =>
    rw [rename, List.map_cons, Value.renamePair, erase, Value.eqv_rename, ← rename, ih, erase]
    split <;> rfl

theorem keys_rename (es : Entries) : (es.rename ρ).keys = es.keys.map (Value.rename ρ) := by
  simp only [keys, rename, List.map_map]
  rfl

/-- Entries that are put in one after the other come to the same. -/
theorem ofPairs_rename (pairs : List (Value × Value)) :
    ofPairs (pairs.map (Value.renamePair ρ)) = (ofPairs pairs).rename ρ := by
  rw [ofPairs, ofPairs, List.foldl_map]
  have hFold (es : Entries) :
      pairs.foldl (fun es e => es.insert (e.1.rename ρ) (e.2.rename ρ)) (es.rename ρ) =
        (pairs.foldl (fun es e => es.insert e.1 e.2) es).rename ρ := by
    induction pairs generalizing es with
    | nil => rfl
    | cons e rest ih => rw [List.foldl_cons, insert_rename, ih, List.foldl_cons]
  exact hFold []

end Entries

-- ---------------------------------------------------------------------------
-- Sorting
-- ---------------------------------------------------------------------------

section

variable (ρ : Renaming) {α : Type}

/-- Something beside a key, with the key renamed. -/
def renameKey (e : Value × α) : Value × α := (e.1.rename ρ, e.2)

/-- How far the entries at the beginning are in order already depends on comparisons of keys only.
-/
theorem runLength_rename (falls : Bool) (first : Value) (rest : List (Value × α)) :
    runLength falls (first.rename ρ) (rest.map (renameKey ρ)) = runLength falls first rest := by
  induction rest generalizing first with
  | nil => rfl
  | cons e rest ih =>
    obtain ⟨key, a⟩ := e
    rw [List.map_cons, renameKey, runLength, Value.keyLess_rename, ih, runLength]

/-- The place of a key among sorted ones is found by comparisons. -/
theorem bisect_rename (sorted : List (Value × α)) (key : Value) (fuel low size : Nat) :
    bisect (sorted.map (renameKey ρ)) (key.rename ρ) fuel low size =
      bisect sorted key fuel low size := by
  induction fuel generalizing low size with
  | zero => rfl
  | succ fuel ih =>
    simp only [bisect, List.getElem?_map, ih]
    cases sorted[low + size / 2]? with
    | none => rfl
    | some e => simp only [Option.map_some, renameKey, Value.keyLess_rename]

/-- So an entry is put at the same place. -/
theorem insertSorted_rename (sorted : List (Value × α)) (e : Value × α) :
    insertSorted (sorted.map (renameKey ρ)) (renameKey ρ e) =
      (insertSorted sorted e).map (renameKey ρ) := by
  have hPlace := bisect_rename ρ sorted e.1 sorted.length.succ 0 sorted.length
  simp only [insertSorted, renameKey, List.length_map, hPlace, List.map_append, List.map_cons,
    List.map_take, List.map_drop]

/-- Keys sort alike. -/
theorem sortKeys_rename (entries : List (Value × α)) :
    sortKeys (entries.map (renameKey ρ)) = (sortKeys entries).map (renameKey ρ) := by
  have hFold (rest sorted : List (Value × α)) :
      (rest.map (renameKey ρ)).foldl insertSorted (sorted.map (renameKey ρ)) =
        (rest.foldl insertSorted sorted).map (renameKey ρ) := by
    induction rest generalizing sorted with
    | nil => rfl
    | cons e rest ih =>
      rw [List.map_cons, List.foldl_cons, insertSorted_rename, ih, List.foldl_cons]
  -- the sorted part grows in both lists at the same places, beginning with the run that is in order
  match entries with
  | [] => rfl
  | [_] => rfl
  | first :: second :: rest =>
    have hRun := runLength_rename ρ (second.1.keyLess first.1) first.1 (second :: rest)
    simp only [List.map_cons] at hRun
    simp only [List.map_cons, sortKeys]
    rw [show (renameKey ρ second).1.keyLess (renameKey ρ first).1 = second.1.keyLess first.1 from
      Value.keyLess_rename ρ _ _]
    rw [show (renameKey ρ first).1 = first.1.rename ρ from rfl, hRun, ← List.map_cons,
      ← List.map_take, ← List.map_cons, ← List.map_drop]
    split
    · rw [← List.map_reverse, hFold]
    · rw [hFold]

/-- What stands beside the keys comes in the same order. -/
theorem map_snd_sortKeys_rename (entries : List (Value × α)) :
    (sortKeys (entries.map (renameKey ρ))).map Prod.snd = (sortKeys entries).map Prod.snd := by
  rw [sortKeys_rename, List.map_map]
  rfl

end

end RuleMachine
