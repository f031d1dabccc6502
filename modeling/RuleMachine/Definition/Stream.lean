import RuleMachine.Value.Equality

/-!
# Streams

Definitions are read from values, some of which are streams: what a stream has yielded is
gone, so reading a definition has an effect on the streams it mentions, whether it succeeds
or not. `Reading` is the setting in which definitions are read, and `readItems?` and
`readPairs` are the two ways in which definitions use what a value yields: all of it, or
pairs up to the first item that is none.
-/

namespace RuleMachine

/-! ## Streams -/

/-- The items that each stream has left, by the stream's number. -/
structure Streams where
  left : List (List Value)
deriving Inhabited

namespace Streams

def rest (s : Streams) (id : Nat) : List Value := s.left[id]?.getD []

def add (s : Streams) (items : List Value) : Value × Streams :=
  (.stream s.left.length, { left := s.left ++ [items] })

/-- The items that a value yields: those of a sequence or set, the keys of a map, or what is left
of a stream. Text and bytes are single values. -/
def items? (s : Streams) : Value → Option (List Value)
  | .list items | .tuple items | .set items => some items
  | .map entries => some (Entries.keys entries)
  | .stream id => some (s.rest id)
  | _ => none

def take (s : Streams) (v : Value) (count : Nat) : Streams :=
  match v with
  | .stream id => { left := s.left.modify id (List.drop count) }
  | _ => s

end Streams

/-! ## Readings -/

/-- Reading a definition: it may fail with a problem of kind `ε`, and uses streams up either way. -/
abbrev Reading (ε α : Type) := ExceptT ε (StateM Streams) α

namespace Reading

def ofExcept {ε α : Type} (r : Except ε α) : Reading ε α := ExceptT.mk (pure r)

def mapProblem {ε ε' α : Type} (f : ε → ε') (r : Reading ε α) : Reading ε' α :=
  ExceptT.adapt f r

def result {ε α : Type} (r : Reading ε α) (s : Streams) : Except ε α × Streams := r s

/-! ### Readings that succeed -/

@[simp] theorem result_pure {ε α : Type} (a : α) (s : Streams) :
    (pure a : Reading ε α).result s = (.ok a, s) := rfl

@[simp] theorem result_throw {ε α : Type} (e : ε) (s : Streams) :
    (throw e : Reading ε α).result s = (.error e, s) := rfl

@[simp] theorem result_ofExcept {ε α : Type} (r : Except ε α) (s : Streams) :
    (ofExcept r).result s = (r, s) := rfl

theorem result_bind {ε α β : Type} (x : Reading ε α) (k : α → Reading ε β) (s : Streams) :
    (x >>= k).result s =
      match x.result s with
      | (.ok a, t) => (k a).result t
      | (.error e, t) => (.error e, t) := by
  show ExceptT.bindCont k (x s).1 (x s).2 = _
  rw [result]
  rcases x s with ⟨_ | _, _⟩ <;> rfl

/-- A reading in two parts succeeds exactly when both parts do. -/
theorem bind_eq_ok {ε α β : Type} {x : Reading ε α} {k : α → Reading ε β} {b : β}
    {s s' : Streams} :
    (x >>= k).result s = (.ok b, s') ↔
      ∃ a t, x.result s = (.ok a, t) ∧ (k a).result t = (.ok b, s') := by
  rw [result_bind]
  rcases x.result s with ⟨e | a, t⟩
  · simp
  · constructor
    · exact fun h => ⟨a, t, rfl, h⟩
    · rintro ⟨_, _, ⟨⟩, h⟩
      exact h

/-- A reading in two parts fails if its first part does, or if its second part does after it. -/
theorem bind_eq_error {ε α β : Type} {x : Reading ε α} {k : α → Reading ε β} {e : ε}
    {s s' : Streams} :
    (x >>= k).result s = (.error e, s') ↔
      x.result s = (.error e, s') ∨
        ∃ a t, x.result s = (.ok a, t) ∧ (k a).result t = (.error e, s') := by
  rw [result_bind]
  rcases x.result s with ⟨e' | a, t⟩
  · simp
  · constructor
    · exact fun h => .inr ⟨a, t, rfl, h⟩
    · rintro (⟨⟨⟩⟩ | ⟨_, _, ⟨⟩, h⟩)
      exact h

/-- A reading whose result is only put together from that of another. -/
theorem result_bind_pure {ε α β : Type} (x : Reading ε α) (g : α → β) (s : Streams) :
    (x >>= fun a => pure (g a)).result s = ((x.result s).1.map g, (x.result s).2) := by
  rw [result_bind]
  rcases x.result s with ⟨_ | _, _⟩ <;> rfl

theorem result_mapProblem {ε ε' α : Type} (f : ε → ε') (r : Reading ε α) (s : Streams) :
    (r.mapProblem f).result s = ((r.result s).1.mapError f, (r.result s).2) := rfl

/-- Rewording problems makes no difference to success. -/
theorem mapProblem_eq_ok {ε ε' α : Type} {f : ε → ε'} {r : Reading ε α} {a : α} {s s' : Streams} :
    (r.mapProblem f).result s = (.ok a, s') ↔ r.result s = (.ok a, s') := by
  rw [result_mapProblem]
  rcases r.result s with ⟨e | b, t⟩
  · have hReworded : (Except.error e : Except ε α).mapError f = .error (f e) := rfl
    simp [hReworded]
  · have hKept : (Except.ok b : Except ε α).mapError f = .ok b := rfl
    simp [hKept]

end Reading

def readItems? {ε : Type} (v : Value) : Reading ε (Option (List Value)) := do
  let streams ← get
  match streams.items? v with
  | none => return none
  | some items =>
    set (streams.take v items.length)
    return some items

/-- Reads a value that must yield pairs, up to its first item that is no pair. -/
def readPairs {ε : Type} (v : Value) (notPairs : ε) (notPair : Nat → Value → ε) :
    Reading ε (List (Value × Value)) := do
  let streams ← get
  match streams.items? v with
  | none => throw notPairs
  | some items =>
    let pairs := (items.map Value.pair?).takeWhile Option.isSome
    set (streams.take v (pairs.length + 1))
    match items[pairs.length]? with
    | some item => throw (notPair pairs.length item)
    | none => return pairs.filterMap id

end RuleMachine
