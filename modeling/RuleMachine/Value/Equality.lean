import RuleMachine.Value.Basic

/-!
# Equality of values

Numbers are equal when they are the same point of the line, whatever their kind, truth values
counting as zero and one; sequences compare item by item and by kind; maps and sets compare
without regard to order; everything with an identity equals only itself.

`Value.eqv` is the equality that containers use for their keys and items. A value is always
`eqv` to itself, NaN included. `Value.equal` is the comparison of two values on their own,
which differs in one point: a NaN is not even equal to itself.

Main statements: `Value.eqv_refl`, every value is the same key as itself; `Value.eqv_comm`, for
keys the order does not matter; `Value.eqv_trans`, what equals the same key is equal; and
`Entries.get?_insert_self`, what was put under a key is found there.
-/

namespace RuleMachine

namespace Value

/-- The point of the line that a number or a truth value is. -/
def quantity? : Value → Option Quantity
  | bool b => some (.ofInt (if b then 1 else 0))
  | int i => some (.ofInt i)
  | float x => some x.quantity
  | _ => none

mutual

/-- Whether two values are the same key, or the same item of a container. -/
def eqv (v w : Value) : Bool :=
  match v, w with
  | null, null => true
  | nan s, nan t => s == t
  | text s, text t => s == t
  | bytes s, bytes t => s == t
  | list vs, list ws => eqvAll vs ws
  | tuple vs, tuple ws => eqvAll vs ws
  | map es, map fs => es.length == fs.length && eqvEntries es fs
  | set vs, set ws => vs.length == ws.length && eqvMembers vs ws
  | function f, function g => f == g
  | stream s, stream t => s == t
  | state s, state t => s == t
  | machine m, machine n => m == n
  | v, w =>
    match v.quantity?, w.quantity? with
    | some a, some b => a == b
    | _, _ => false
termination_by structural v

/-- Whether two sequences have the same items in the same order. -/
def eqvAll (vs ws : List Value) : Bool :=
  match vs, ws with
  | [], [] => true
  | v :: vs, w :: ws => eqv v w && eqvAll vs ws
  | _, _ => false
termination_by structural vs

/-- Whether every entry of one map is an entry of the other. -/
def eqvEntries (es fs : List (Value × Value)) : Bool :=
  match es with
  | [] => true
  | (k, v) :: es => (fs.any fun (k', v') => eqv k k' && eqv v v') && eqvEntries es fs
termination_by structural es

/-- Whether every member of one set is a member of the other. -/
def eqvMembers (vs ws : List Value) : Bool :=
  match vs with
  | [] => true
  | v :: vs => (ws.any fun w => eqv v w) && eqvMembers vs ws
termination_by structural vs

end

/-- Whether two values are equal on their own. -/
def equal (v w : Value) : Bool :=
  match v, w with
  | nan _, nan _ => false
  | v, w => eqv v w

/-! ## Every value is itself -/

mutual

theorem eqv_refl (v : Value) : v.eqv v = true := by
  cases v with
  | bool | int | float => simp [eqv, quantity?]
  | list vs => simpa [eqv] using eqvAll_refl vs
  | tuple vs => simpa [eqv] using eqvAll_refl vs
  | map es => simpa [eqv] using eqvEntries_of_subset es es fun _ h => h
  | set vs => simpa [eqv] using eqvMembers_of_subset vs vs fun _ h => h
  | _ => simp [eqv]

theorem eqvAll_refl (vs : List Value) : eqvAll vs vs = true := by
  cases vs with
  | nil => simp [eqvAll]
  | cons v vs => simp [eqvAll, eqv_refl v, eqvAll_refl vs]

theorem eqvEntries_of_subset (es fs : List (Value × Value)) (h : ∀ e ∈ es, e ∈ fs) :
    eqvEntries es fs = true := by
  match es, h with
  | [], _ => simp [eqvEntries]
  | (k, v) :: rest, h =>
    rw [eqvEntries, Bool.and_eq_true, List.any_eq_true]
    refine ⟨⟨(k, v), h _ List.mem_cons_self, ?_⟩, ?_⟩
    · simp [eqv_refl k, eqv_refl v]
    · exact eqvEntries_of_subset rest fs fun e he => h e (List.mem_cons_of_mem _ he)

theorem eqvMembers_of_subset (vs ws : List Value) (h : ∀ v ∈ vs, v ∈ ws) :
    eqvMembers vs ws = true := by
  match vs, h with
  | [], _ => simp [eqvMembers]
  | v :: rest, h =>
    rw [eqvMembers, Bool.and_eq_true, List.any_eq_true]
    refine ⟨⟨v, h _ List.mem_cons_self, eqv_refl v⟩, ?_⟩
    exact eqvMembers_of_subset rest ws fun w hw => h w (List.mem_cons_of_mem _ hw)

end

/-! ## Equality is symmetric on keys -/

mutual

/-- Which of two keys comes first does not matter. -/
theorem eqv_comm {v : Value} (h : v.hashable = true) (w : Value) : v.eqv w = w.eqv v := by
  cases v with
  | list | map | set => simp [hashable, unhashable?] at h
  | tuple vs =>
    cases w with
    | tuple ws => simpa [eqv] using eqvAll_comm (by simpa [hashable, unhashable?] using h) ws
    | _ => simp [eqv, quantity?]
  | _ => cases w <;> simp only [eqv, quantity?] <;> exact BEq.comm

theorem eqvAll_comm {vs : List Value} (h : unhashableItem? vs = none) (ws : List Value) :
    eqvAll vs ws = eqvAll ws vs := by
  match vs, ws with
  | [], [] => rfl
  | [], _ :: _ => rfl
  | _ :: _, [] => rfl
  | v :: vs, w :: ws =>
    rw [unhashableItem?] at h
    split at h
    · simp at h
    · rename_i hv
      rw [eqvAll, eqvAll, eqv_comm (by simp [hashable, hv]) w, eqvAll_comm h ws]

end

/-! ## Equal keys -/

/-- A state is the same key as nothing else. -/
theorem eq_state_of_eqv {v : Value} {ref : StateRef} (h : v.eqv (state ref) = true) :
    v = state ref := by
  cases v with
  | state other => exact congrArg state (beq_iff_eq.mp h)
  | bool | int | float => simp [eqv, quantity?] at h
  | _ => cases h

/-- A text is the same key as nothing else. -/
theorem eqv_text_iff {v : Value} {s : String} : v.eqv (text s) = true ↔ v = text s := by
  constructor
  · intro h
    cases v with
    | text other => exact congrArg text (beq_iff_eq.mp h)
    | bool | int | float => simp [eqv, quantity?] at h
    | _ => cases h
  · rintro rfl
    exact eqv_refl _

/-- A number is the same key as the values that are the same point of the line. -/
theorem eqv_iff_of_quantity {v : Value} {a : Quantity} (h : v.quantity? = some a) (w : Value) :
    v.eqv w = true ↔ w.quantity? = some a := by
  have hEqv : v.eqv w = match v.quantity?, w.quantity? with
      | some a, some b => a == b
      | _, _ => false := by
    cases v with
    | bool | int | float => cases w <;> rfl
    | _ => cases h
  rw [hEqv, h]
  cases w.quantity? with
  | none => exact iff_of_false Bool.false_ne_true nofun
  | some b =>
    show (a == b) = true ↔ some b = some a
    rw [beq_iff_eq, Option.some.injEq, eq_comm]

mutual

/-- What equals a key may be a key. -/
theorem hashable_of_eqv {v w : Value} (hv : v.hashable = true) (h : v.eqv w = true) :
    w.hashable = true := by
  cases v with
  | list | map | set => simp [hashable, unhashable?] at hv
  | tuple vs =>
    cases w with
    | tuple ws =>
      rw [eqv] at h
      have hItems : unhashableItem? ws = none :=
        unhashableItem?_of_eqvAll (by simpa [hashable, unhashable?] using hv) h
      simpa [hashable, unhashable?] using hItems
    | _ => simp [eqv, quantity?] at h
  | _ => cases w <;> first | rfl | simp [eqv, quantity?] at h

theorem unhashableItem?_of_eqvAll {vs ws : List Value} (hvs : unhashableItem? vs = none)
    (h : eqvAll vs ws = true) : unhashableItem? ws = none := by
  match vs, ws with
  | _, [] => rfl
  | [], _ :: _ => simp [eqvAll] at h
  | v :: vs, w :: ws =>
    rw [eqvAll, Bool.and_eq_true] at h
    rw [unhashableItem?] at hvs
    split at hvs
    · cases hvs
    · rename_i hv
      have hw : w.hashable = true := hashable_of_eqv (by simp [hashable, hv]) h.1
      have hNone : w.unhashable? = none := by simpa [hashable] using hw
      rw [unhashableItem?, hNone]
      exact unhashableItem?_of_eqvAll hvs h.2

end

mutual

/-- What equals the same key as another is the same key as that. -/
theorem eqv_trans {u v w : Value} (hu : u.hashable = true) (h : u.eqv v = true)
    (h' : v.eqv w = true) : u.eqv w = true := by
  cases u with
  | list | map | set => simp [hashable, unhashable?] at hu
  | tuple us =>
    cases v with
    | tuple vs =>
      cases w with
      | tuple ws =>
        rw [eqv] at h h' ⊢
        exact eqvAll_trans (by simpa [hashable, unhashable?] using hu) h h'
      | _ => simp [eqv, quantity?] at h'
    | _ => simp [eqv, quantity?] at h
  | bool | int | float =>
    -- numbers are compared as points of the line
    rw [eqv_iff_of_quantity rfl] at h ⊢
    rwa [eqv_iff_of_quantity h] at h'
  | _ =>
    -- everything else equals only itself
    cases v <;> simp [eqv, quantity?] at h
    all_goals first | exact h' | (subst h; exact h')

theorem eqvAll_trans {us vs ws : List Value} (hus : unhashableItem? us = none)
    (h : eqvAll us vs = true) (h' : eqvAll vs ws = true) : eqvAll us ws = true := by
  match us, vs, ws with
  | [], [], [] => rfl
  | [], [], _ :: _ => simp [eqvAll] at h'
  | [], _ :: _, _ => simp [eqvAll] at h
  | _ :: _, [], _ => simp [eqvAll] at h
  | _ :: _, _ :: _, [] => simp [eqvAll] at h'
  | u :: us, v :: vs, w :: ws =>
    rw [eqvAll, Bool.and_eq_true] at h h'
    rw [unhashableItem?] at hus
    split at hus
    · cases hus
    · rename_i hu
      rw [eqvAll, eqv_trans (by simp [hashable, hu]) h.1 h'.1, eqvAll_trans hus h.2 h'.2]
      rfl

end

end Value

/-! ## Maps as lists of entries -/

/-- The entries of a map, in the order in which their keys were first inserted. -/
abbrev Entries := List (Value × Value)

namespace Entries

def get? (es : Entries) (key : Value) : Option Value :=
  match es with
  | [] => none
  | (k, v) :: rest => if k.eqv key then some v else get? rest key

def contains (es : Entries) (key : Value) : Bool := (get? es key).isSome

/-- Puts a value under a key. A key that is present keeps its place and its own form. -/
def insert (es : Entries) (key value : Value) : Entries :=
  match es with
  | [] => [(key, value)]
  | (k, v) :: rest => if k.eqv key then (k, value) :: rest else (k, v) :: insert rest key value

def erase (es : Entries) (key : Value) : Entries :=
  match es with
  | [] => []
  | (k, v) :: rest => if k.eqv key then rest else (k, v) :: erase rest key

def ofPairs (pairs : List (Value × Value)) : Entries :=
  pairs.foldl (fun es (k, v) => es.insert k v) []

def keys (es : Entries) : List Value := es.map Prod.fst

theorem contains_text_iff (es : Entries) (key : String) :
    es.contains (.text key) = true ↔ .text key ∈ es.keys := by
  induction es with
  | nil => simp [contains, get?, keys]
  | cons e rest ih =>
    obtain ⟨k, v⟩ := e
    rw [contains, get?, keys, List.map_cons, List.mem_cons]
    by_cases hKey : k.eqv (.text key) = true
    · rw [if_pos hKey]
      exact iff_of_true rfl (.inl (Value.eqv_text_iff.mp hKey).symm)
    · have hNe : ¬ .text key = k := fun hSame => hKey (Value.eqv_text_iff.mpr hSame.symm)
      rw [if_neg hKey, or_iff_right hNe]
      exact ih

theorem get?_insert_self (es : Entries) (key value : Value) :
    (es.insert key value).get? key = some value := by
  induction es with
  | nil => simp [insert, get?, Value.eqv_refl]
  | cons e rest ih =>
    rw [insert]
    by_cases h : e.1.eqv key = true
    · simp [h, get?]
    · simpa [h, get?] using ih

end Entries

end RuleMachine
