import RuleMachine.Value.Equality

/-!
# The order of map keys

Keys of a map are shown in order. Numbers are ordered as numbers, text and bytes by code, and
tuples by their first difference (`Value.less?`); two keys of different kinds, which have no
order of their own, go by their kinds (`Value.keyLess`).

Put together these rules are no linear order: a truth value precedes bytes and bytes precede
a double, while the truth value and the double compare as numbers. So the order in which such
keys come out depends on how they are sorted, and `sortKeys` fixes it: the longest run at the
start that rises is kept, or that strictly falls is turned around, and each later key is inserted
by bisection, after its equals.
-/

namespace RuleMachine

/-- The order of bytes: by the first difference, a beginning before the whole. -/
def bytesLess : List UInt8 → List UInt8 → Bool
  | _, [] => false
  | [], _ :: _ => true
  | b :: bs, c :: cs => if b == c then bytesLess bs cs else b < c

namespace Value

mutual

/-- Whether one value precedes another by their own order; `none` if they have none. -/
def less? (v w : Value) : Option Bool :=
  match v, w with
  | text s, text t => some (s < t)
  | bytes s, bytes t => some (bytesLess s t)
  | tuple vs, tuple ws => lessAll? vs ws
  | list vs, list ws => lessAll? vs ws
  | v, w =>
    match v.quantity?, w.quantity? with
    | some a, some b => some (a.lt b)
    | _, _ => none
termination_by structural v

/-- The order of sequences: by the first items that differ, a beginning before the whole. -/
def lessAll? (vs ws : List Value) : Option Bool :=
  match vs, ws with
  | _, [] => some false
  | [], _ :: _ => some true
  | v :: vs, w :: ws => if v.eqv w then lessAll? vs ws else less? v w
termination_by structural vs

end

/-- The place of a kind of key among the kinds, which decides between keys of two kinds that have no
order of their own. -/
def kindRank : Value → Nat
  | null => 0
  | function _ => 1
  | bool _ => 2
  | bytes _ => 3
  | map _ => 4
  | float _ | nan _ => 5
  | machine _ => 6
  | state _ => 7
  | stream _ => 8
  | int _ => 9
  | list _ => 10
  | set _ => 11
  | text _ => 12
  | tuple _ => 13

def keyLess (v w : Value) : Bool :=
  match less? v w with
  | some b => b
  | none => v.kindRank < w.kindRank

end Value

/-! ## Sorting by key -/

/-- How many entries, after one with key `first`, continue a run: one in which each key precedes the
one before it if the run falls, and none does if it rises. -/
def runLength {α : Type} (falls : Bool) (first : Value) (rest : List (Value × α)) : Nat :=
  match rest with
  | [] => 0
  | (key, _) :: rest => if key.keyLess first == falls then runLength falls key rest + 1 else 0

/-- The place to insert a key among sorted entries, by bisection of the places from `low` to
`low + size`. Half of the places are left after each step, so `fuel` steps suffice for fewer than
`2 ^ fuel` of them. -/
def bisect {α : Type} (sorted : List (Value × α)) (key : Value) : (fuel low size : Nat) → Nat
  | 0, low, _ => low
  | fuel + 1, low, size =>
    if size = 0 then low
    else
      let half := size / 2
      match sorted[low + half]? with
      | none => low
      | some (pivot, _) =>
        if key.keyLess pivot then bisect sorted key fuel low half
        else bisect sorted key fuel (low + half + 1) (size - half - 1)

/-- Inserts an entry into sorted ones, after those with an equal key. -/
def insertSorted {α : Type} (sorted : List (Value × α)) (entry : Value × α) : List (Value × α) :=
  let place := bisect sorted entry.1 sorted.length.succ 0 sorted.length
  sorted.take place ++ entry :: sorted.drop place

def sortKeys {α : Type} (entries : List (Value × α)) : List (Value × α) :=
  match entries with
  | first :: second :: rest =>
    let falls := second.1.keyLess first.1
    let others := second :: rest
    let length := runLength falls first.1 others
    let run := first :: others.take length
    (others.drop length).foldl insertSorted (if falls then run.reverse else run)
  | entries => entries

end RuleMachine
