import RuleMachine.Proofs.Correspondence.Engine
import RuleMachine.Script.Command

/-!
# Expressions correspond

Scripts compute with values and hand them to the engine. Whatever they compute with renamed values
is renamed, and it mentions only what is known. The one thing that does not come from outside is
what stands in a script as a constant: that must be known as well, and have no numbers that are
changed.

* `Expr.constants`: the constants in an expression.
* `Value.Fixed`: what may be a constant.
* `Correspondence.Lawful.operate`: operators.
* `Correspondence.Lawful.eval`: expressions.
-/

namespace RuleMachine

-- ---------------------------------------------------------------------------
-- Constants
-- ---------------------------------------------------------------------------

namespace Expr

mutual

/-- The constants in an expression. -/
def constants (e : Expr) : List Value :=
  match e with
  | constant v => [v]
  | nan => []
  | list items | tuple items | set items | stream items => constantsAll items
  | map entries => constantsEntries entries
  | apply _ operands => constantsAll operands

/-- The constants of several expressions. -/
def constantsAll (es : List Expr) : List Value :=
  match es with
  | [] => []
  | e :: rest => constants e ++ constantsAll rest

def constantsEntries (entries : List (Expr × Expr)) : List Value :=
  match entries with
  | [] => []
  | (key, e) :: rest => constants key ++ constants e ++ constantsEntries rest

end

/-- The constants in an expression that may be missing. -/
def constantsOptional (e : Option Expr) : List Value := e.elim [] constants

end Expr

/-- What may stand in scripts as a constant: values that mention only what is known and have no
numbers that are changed. -/
structure Value.Fixed (ρ : Renaming) (known : Value → Prop) (v : Value) : Prop where
  same : v.rename ρ = v
  within : v.Within known

-- ---------------------------------------------------------------------------
-- Frames
-- ---------------------------------------------------------------------------

/-- A frame with its arguments renamed. Outside of functions there are none. -/
def Frame.rename (ρ : Renaming) (f : Frame) : Frame :=
  { args := f.args.map (List.map (Value.rename ρ)) }

/-- Whether a function was called with what is known. -/
def Frame.Within (known : Value → Prop) (f : Frame) : Prop := ∀ v ∈ f.arguments, v.Within known

theorem Frame.arguments_rename (ρ : Renaming) (f : Frame) :
    (f.rename ρ).arguments = f.arguments.map (Value.rename ρ) := by
  obtain ⟨_ | args⟩ := f <;> rfl

/-- Outside of functions no arguments are known, as there are none. -/
theorem Frame.within_outermost (known : Value → Prop) : Frame.outermost.Within known :=
  List.forall_mem_nil _

-- ---------------------------------------------------------------------------
-- Values
-- ---------------------------------------------------------------------------

namespace Value

variable {known : Value → Prop}

/-- Sums of numbers and of texts have no numbers of things in them. Lists are joined item by item.
-/
theorem add?_rename (ρ : Renaming) (v w : Value) :
    (v.rename ρ).add? (w.rename ρ) = (v.add? w).map (Value.rename ρ) := by
  cases v with
  | text s => cases w <;> rfl
  | list xs =>
    cases w with
    | list ys => simp [add?]
    | _ => rfl
  | bool b => cases w <;> rfl
  | int i => cases w <;> rfl
  | _ => rfl

theorem Within.add? {v w : Value} (hv : v.Within known) (hw : w.Within known) :
    ∀ sum ∈ v.add? w, sum.Within known := by
  intro sum hSum
  unfold Value.add? at hSum
  split at hSum
  · obtain rfl := Option.some.inj hSum
    exact within_text _
  · obtain rfl := Option.some.inj hSum
    exact within_list.mpr (List.forall_mem_append.mpr ⟨within_list.mp hv, within_list.mp hw⟩)
  · split at hSum
    · obtain rfl := Option.some.inj hSum
      exact within_int _
    · cases hSum

/-- The members that a value has are renamed with it. -/
theorem members?_rename (ρ : Renaming) (v : Value) :
    (v.rename ρ).members? = v.members?.map (List.map (Value.rename ρ)) := by
  cases v with
  | list | tuple | set => simp [members?]
  | map entries =>
    rw [Value.rename_map]
    exact congrArg some (Entries.keys_rename ρ entries)
  | _ => rfl

theorem Within.members? {v : Value} (h : v.Within known) {items : List Value}
    (hItems : v.members? = some items) : ∀ item ∈ items, item.Within known := by
  -- the kinds of values that have members of their own; a stream is not among them
  cases v with
  | list vs =>
    obtain rfl := Option.some.inj hItems
    exact within_list.mp h
  | tuple vs =>
    obtain rfl := Option.some.inj hItems
    exact within_tuple.mp h
  | set vs =>
    obtain rfl := Option.some.inj hItems
    exact within_set.mp h
  | map entries =>
    obtain rfl := Option.some.inj hItems
    exact Entries.Both.keys (within_map.mp h)
  | _ => cases hItems

theorem Within.state? {v : Value} (h : v.Within known) : ∀ s ∈ v.state?, known (.state s) := by
  cases v with
  | state s => exact fun _ hs => Option.some.inj hs ▸ within_state.mp h
  | _ => exact fun _ hs => by cases hs

/-- Where no state is, an answer is null. -/
theorem within_optionalState {s : Option StateRef} (h : ∀ t ∈ s, known (.state t)) :
    (Run.optionalState s).Within known := by
  cases s with
  | some s => exact within_state.mpr (h s rfl)
  | none => exact within_null

theorem optionalState_rename (ρ : Renaming) (s : Option StateRef) :
    (Run.optionalState s).rename ρ = Run.optionalState (s.map (StateRef.rename ρ)) := by
  cases s <;> rfl

end Value

namespace Correspondence

variable {R : Correspondence}

namespace Lawful

variable (hR : R.Lawful)
include hR

-- ---------------------------------------------------------------------------
-- The machine that is meant
-- ---------------------------------------------------------------------------

section

variable {f : Frame} (hf : f.Within R.known)
include hf

/-- The machine that a function is about is that of its first argument. A state whose machine is
gone is about none. -/
theorem subject : R.Holds (.option .machine) f.subject (f.rename R.ρ).subject := by
  -- outside of functions nothing is meant, and a function without arguments means the default
  -- machine
  obtain ⟨_ | _ | ⟨v, rest⟩⟩ := f
  · exact hR.pure fun _ h => by cases h
  · exact hR.look (q := .bound defaultMachine) trivial rfl
  · have hFirst : v.Within R.known := hf v List.mem_cons_self
    cases v with
    | state s =>
      have hs : R.known (.machine s.machine) := (hR.home s).mp (Value.within_state.mp hFirst)
      refine hR.bind (hR.look (q := .alive s.machine) hs rfl) fun alive _ => ?_
      cases alive with
      | true => exact hR.pure fun _ h => Option.some.inj h ▸ hs
      | false => exact hR.pure fun _ h => by cases h
    | machine m => exact hR.pure fun _ h => Option.some.inj h ▸ Value.within_machine.mp hFirst
    | _ => exact hR.look (q := .bound defaultMachine) trivial rfl

/-- Which machine is meant: the one of a name, or the one that a function is about. -/
theorem machine (id : Option String) :
    R.Holds .machine (f.machine id) ((f.rename R.ρ).machine id) := by
  cases id with
  | some id =>
    exact hR.bind (hR.look (q := .bound id) trivial rfl) fun _ hm => hR.require (.unbound id) hm
  | none =>
    refine hR.bind (hR.subject hf) fun subject hSubject => ?_
    cases subject with
    | some m => exact hR.pure (hSubject m rfl)
    | none =>
      exact hR.bind (hR.look (q := .bound defaultMachine) trivial rfl) fun _ hm =>
        hR.require (.unbound defaultMachine) hm

end

-- ---------------------------------------------------------------------------
-- Operators
-- ---------------------------------------------------------------------------

/-- An operand that must be a state. -/
theorem stateOf {v : Value} (h : v.Within R.known) :
    R.Holds .state (Run.stateOf v) (Run.stateOf (v.rename R.ρ)) :=
  hR.require_of_eq .illTyped h.state? (Value.state?_rename R.ρ v)

/-- Whether a value can be a key does not depend on numbers. -/
theorem requireHashable (v : Value) :
    R.Holds .plain (Run.requireHashable v) (Run.requireHashable (v.rename R.ρ)) := by
  rw [Run.requireHashable, Run.requireHashable, Value.unhashable?_rename]
  cases v.unhashable? with
  | some kind => exact hR.fail' (.unhashableKey kind)
  | none => exact hR.pure trivial

section

variable {f : Frame} (hf : f.Within R.known)
include hf

/-- A state that is found on the machine that is meant. -/
theorem stateOn (id : Option String) {v : Value} (h : v.Within R.known) :
    R.Holds .value (do return .state (← Run.resolve (← f.machine id) v))
      (do return .state (← Run.resolve (← (f.rename R.ρ).machine id) (v.rename R.ρ))) := by
  refine hR.bind (hR.machine hf id) fun m hm => hR.bind (hR.resolve hm h) fun s hs => ?_
  exact hR.pure (Value.within_state.mpr hs)

/-- A note of the machine that is meant, or something else if there is none. -/
theorem noteOr (key : Value) {other : Value} (hOther : other.Within R.known) :
    R.Holds .value
      (do
        Run.requireHashable key
        let notes ← Run.look (.notes (← f.machine none))
        return (notes.get? key).getD other)
      (do
        Run.requireHashable (key.rename R.ρ)
        let notes ← Run.look (.notes (← (f.rename R.ρ).machine none))
        return (notes.get? (key.rename R.ρ)).getD (other.rename R.ρ)) := by
  refine hR.bind (hR.requireHashable key) fun _ _ => hR.bind (hR.machine hf none) fun m hm => ?_
  refine hR.bind (hR.look (q := .notes m) hm rfl) fun notes hNotes => ?_
  refine hR.pure_of_eq (hNotes.getD key hOther) ?_
  -- the notes are renamed with their keys, so an equal key is found alike
  show ((Entries.rename R.ρ notes).get? (key.rename R.ρ)).getD (other.rename R.ρ) = _
  rw [Entries.get?_rename]
  cases notes.get? key <;> rfl

/-! An operator fails if it has not as many operands as it needs, so its operands are looked at by
their number. -/

/-- Operators without operands ask for the arguments, the machine and where it stands. -/
theorem operate_none (op : Operator) :
    R.Holds .value (Run.operate f op []) (Run.operate (f.rename R.ρ) op []) := by
  cases op with
  | argCount =>
    refine hR.pure_of_eq (Value.within_int _) ?_
    rw [Frame.arguments_rename, List.length_map]
    rfl
  | machine =>
    refine hR.bind (hR.subject hf) fun subject hSubject => ?_
    cases subject with
    | some m => exact hR.pure (Value.within_machine.mpr (hSubject m rfl))
    | none => exact hR.pure Value.within_null
  | current =>
    refine hR.bind (hR.machine hf none) fun m hm => ?_
    refine hR.bind (hR.look (q := .current m) hm rfl) fun s hs => ?_
    exact hR.pure_of_eq (Value.within_optionalState hs) (Value.optionalState_rename R.ρ s).symm
  | stackLength =>
    refine hR.bind (hR.machine hf none) fun m hm => ?_
    refine hR.bind (hR.look (q := .history m) hm rfl) fun history _ => ?_
    exact hR.pure_of_eq (Value.within_int _)
      (congrArg (fun n : Nat => Value.int n) (List.length_map _))
  | _ => exact hR.fail' .illTyped

/-- Operators with one operand. Most of them ask something about a state. -/
theorem operate_one (op : Operator) {v : Value} (h : v.Within R.known) :
    R.Holds .value (Run.operate f op [v]) (Run.operate (f.rename R.ρ) op [v.rename R.ρ]) := by
  cases op with
  | arg =>
    cases v with
    | int i =>
      -- an argument that was not given is null
      have hItem : (f.arguments[i.toNat]?.getD .null).Within R.known := by
        cases hArg : f.arguments[i.toNat]? with
        | some arg => exact hf arg (List.mem_of_getElem? hArg)
        | none => exact Value.within_null
      refine hR.pure_of_eq (by split <;> [exact Value.within_null; exact hItem]) ?_
      rw [Frame.arguments_rename, List.getElem?_map]
      split
      · rfl
      · cases f.arguments[i.toNat]? <;> rfl
    | _ => exact hR.fail' .illTyped
  | held =>
    cases v with
    | text id =>
      refine hR.bind (hR.look (q := .held id) trivial rfl) fun _ hs => ?_
      exact hR.bind (hR.require (c := .state) (.unbound id) hs) fun _ hs =>
        hR.pure (Value.within_state.mpr hs)
    | _ => exact hR.fail' .illTyped
  | machine =>
    cases v with
    | text id =>
      exact hR.bind (hR.machine hf (some id)) fun _ hm => hR.pure (Value.within_machine.mpr hm)
    | _ => exact hR.fail' .illTyped
  | state => exact hR.stateOn hf none h
  | note => exact hR.noteOr hf v Value.within_null
  | name => exact hR.bind (hR.stateOf h) fun s hs => hR.look (q := .name s) hs rfl
  | visits =>
    refine hR.bind (hR.stateOf h) fun s hs => ?_
    exact hR.bind (hR.look (q := .visitCount s) hs rfl) fun _ _ =>
      hR.pure (Value.within_int _)
  | latest slot => exact hR.bind (hR.stateOf h) fun s hs => hR.look (q := .latest s slot) hs rfl
  | slots slot =>
    refine hR.bind (hR.stateOf h) fun s hs => ?_
    refine hR.bind (hR.look (q := .slots s slot) hs rfl) fun vs hvs => ?_
    exact hR.pure_of_eq (Value.within_list.mpr hvs) (Value.rename_list R.ρ vs).symm
  | not => exact hR.pure_of_eq (Value.within_bool _) (by rw [Value.truthy_rename]; rfl)
  | length =>
    refine hR.bind (d := .plain) (hR.require_of_eq .illTyped (fun _ _ => trivial) ?_) fun _ _ =>
      hR.pure (Value.within_int _)
    rw [Value.length?_rename]
    exact Option.map_id'.symm
  | _ => exact hR.fail' .illTyped

/-- Operators with two operands compute with values, and two of them look a note up. -/
theorem operate_two (op : Operator) {v w : Value} (hv : v.Within R.known) (hw : w.Within R.known) :
    R.Holds .value (Run.operate f op [v, w])
      (Run.operate (f.rename R.ρ) op [v.rename R.ρ, w.rename R.ρ]) := by
  cases op with
  | state =>
    cases w with
    | text id => exact hR.stateOn hf (some id) hv
    | _ => exact hR.fail' .illTyped
  | note => exact hR.noteOr hf v hw
  | equal => exact hR.pure_of_eq (Value.within_bool _) (by rw [Value.equal_rename]; rfl)
  | less =>
    refine hR.bind (d := .plain) (hR.require_of_eq .illTyped (fun _ _ => trivial) ?_) fun _ _ =>
      hR.pure (Value.within_bool _)
    rw [Value.less?_rename]
    exact Option.map_id'.symm
  | and | or =>
    refine hR.pure_of_eq (Value.within_bool _) ?_
    rw [Value.truthy_rename, Value.truthy_rename]
    rfl
  | add => exact hR.require_of_eq .illTyped (hv.add? hw) (Value.add?_rename R.ρ v w)
  | member =>
    refine hR.bind (d := .list .value) (hR.require_of_eq .illTyped (fun _ h => hw.members? h)
      (Value.members?_rename R.ρ w)) fun members _ => hR.pure_of_eq (Value.within_bool _) ?_
    have hAny : (members.map (Value.rename R.ρ)).any (fun item => item.eqv (v.rename R.ρ)) =
        members.any fun item => item.eqv v := by
      rw [List.any_map]
      exact congrArg members.any (funext fun item => Value.eqv_rename R.ρ item v)
    exact congrArg Value.bool hAny
  | arg | held | machine => cases v <;> exact hR.fail' .illTyped
  | _ => exact hR.fail' .illTyped

/-- **Operators correspond.** -/
theorem operate (op : Operator) {operands : List Value} (h : ∀ v ∈ operands, v.Within R.known) :
    R.Holds .value (Run.operate f op operands)
      (Run.operate (f.rename R.ρ) op (operands.map (Value.rename R.ρ))) := by
  match operands with
  | [] => exact hR.operate_none hf op
  | [v] => exact hR.operate_one hf op (h v List.mem_cons_self)
  | [v, w] => exact hR.operate_two hf op (h v (by simp)) (h w (by simp))
  | [u, v, w] =>
    cases op with
    | choose =>
      refine hR.pure_of_eq ?_ ?_
      · split
        · exact h v (by simp)
        · exact h w (by simp)
      · show (if (u.rename R.ρ).truthy then _ else _) = _
        rw [Value.truthy_rename]
        split <;> rfl
    | arg | held | machine => cases u <;> exact hR.fail' .illTyped
    | state => cases v <;> exact hR.fail' .illTyped
    | _ => exact hR.fail' .illTyped
  | t :: u :: v :: w :: rest =>
    cases op with
    | arg | held | machine => cases t <;> exact hR.fail' .illTyped
    | state => cases u <;> exact hR.fail' .illTyped
    | _ => exact hR.fail' .illTyped

end

-- ---------------------------------------------------------------------------
-- Expressions
-- ---------------------------------------------------------------------------

/-- The keys of a map are checked before anything is put under them. -/
theorem makeMap {pairs : List (Value × Value)} (h : Entries.Both (Value.Within R.known) pairs) :
    R.Holds .value (Run.makeMap pairs) (Run.makeMap (pairs.map (Value.renamePair R.ρ))) := by
  have hKind : (pairs.map (Value.renamePair R.ρ)).findSome? (fun e => e.1.unhashable?) =
      pairs.findSome? fun e => e.1.unhashable? := by
    rw [List.findSome?_map]
    exact congrArg (pairs.findSome? ·) (funext fun e => Value.unhashable?_rename R.ρ e.1)
  rw [Run.makeMap, Run.makeMap]
  generalize hFound : pairs.findSome? _ = found
  generalize hFound' : (pairs.map (Value.renamePair R.ρ)).findSome? _ = found'
  obtain rfl : found' = found := hFound'.symm.trans (hKind.trans hFound)
  cases found' with
  | some kind => exact hR.fail' (.unhashableKey kind)
  | none =>
    refine hR.pure_of_eq (Value.within_map.mpr (Entries.Both.ofPairs h)) ?_
    rw [Entries.ofPairs_rename]
    exact (Value.rename_map R.ρ _).symm

/-- The members of a set are checked, and equal ones are left out. -/
theorem makeSet {items : List Value} (h : ∀ v ∈ items, v.Within R.known) :
    R.Holds .value (Run.makeSet items) (Run.makeSet (items.map (Value.rename R.ρ))) := by
  have hKind : (items.map (Value.rename R.ρ)).findSome? Value.unhashable? =
      items.findSome? Value.unhashable? := by
    rw [List.findSome?_map]
    exact congrArg (items.findSome? ·) (funext fun v => Value.unhashable?_rename R.ρ v)
  have hMembers : (items.map (Value.rename R.ρ)).map (fun v => (v, Value.null)) =
      (items.map fun v => (v, Value.null)).map (Value.renamePair R.ρ) := by
    rw [List.map_map, List.map_map]
    rfl
  have hKnown : Entries.Both (Value.Within R.known) (items.map fun v => (v, Value.null)) := by
    intro e he
    obtain ⟨v, hv, rfl⟩ := List.mem_map.mp he
    exact ⟨h v hv, Value.within_null⟩
  rw [Run.makeSet, Run.makeSet, hKind]
  cases items.findSome? Value.unhashable? with
  | some kind => exact hR.fail' (.unhashableKey kind)
  | none =>
    refine hR.pure_of_eq (Value.within_set.mpr (Entries.Both.ofPairs hKnown).keys) ?_
    rw [hMembers, Entries.ofPairs_rename, Entries.keys_rename]
    exact (Value.rename_set R.ρ _).symm

variable {f : Frame}

mutual

/-- **Expressions correspond.** -/
theorem eval (hf : f.Within R.known) (e : Expr) (h : ∀ v ∈ e.constants, v.Fixed R.ρ R.known) :
    R.Holds .value (e.eval f) (e.eval (f.rename R.ρ)) := by
  cases e with
  | constant v =>
    have hv : v.Fixed R.ρ R.known := h v (List.mem_singleton_self v)
    rw [Expr.eval, Expr.eval]
    exact hR.pure_of_eq hv.within hv.same.symm
  | nan =>
    rw [Expr.eval, Expr.eval]
    exact hR.does .nan trivial rfl
  | list items =>
    rw [Expr.eval, Expr.eval]
    refine hR.bind (evalAll hf items h) fun vs hvs => ?_
    exact hR.pure_of_eq (Value.within_list.mpr hvs) (Value.rename_list R.ρ vs).symm
  | tuple items =>
    rw [Expr.eval, Expr.eval]
    refine hR.bind (evalAll hf items h) fun vs hvs => ?_
    exact hR.pure_of_eq (Value.within_tuple.mpr hvs) (Value.rename_tuple R.ρ vs).symm
  | map entries =>
    rw [Expr.eval, Expr.eval]
    exact hR.bind (evalEntries hf entries h) fun _ hPairs => hR.makeMap hPairs
  | set items =>
    rw [Expr.eval, Expr.eval]
    exact hR.bind (evalAll hf items h) fun _ hvs => hR.makeSet hvs
  | stream items =>
    rw [Expr.eval, Expr.eval]
    exact hR.bind (evalAll hf items h) fun vs hvs => hR.does (.stream vs) hvs rfl
  | apply op operands =>
    rw [Expr.eval, Expr.eval]
    exact hR.bind (evalAll hf operands h) fun _ hvs => hR.operate hf op hvs

/-- Several expressions are evaluated from left to right. -/
theorem evalAll (hf : f.Within R.known) (es : List Expr)
    (h : ∀ v ∈ Expr.constantsAll es, v.Fixed R.ρ R.known) :
    R.Holds (.list .value) (Expr.evalAll f es) (Expr.evalAll (f.rename R.ρ) es) := by
  cases es with
  | nil =>
    rw [Expr.evalAll, Expr.evalAll]
    exact hR.pure (List.forall_mem_nil _)
  | cons e rest =>
    obtain ⟨hFirst, hRest⟩ := List.forall_mem_append.mp h
    rw [Expr.evalAll, Expr.evalAll]
    refine hR.bind (eval hf e hFirst) fun v hv => hR.bind (evalAll hf rest hRest) fun vs hvs => ?_
    exact hR.pure (within_cons hv hvs)

theorem evalEntries (hf : f.Within R.known) (entries : List (Expr × Expr))
    (h : ∀ v ∈ Expr.constantsEntries entries, v.Fixed R.ρ R.known) :
    R.Holds .entries (Expr.evalEntries f entries) (Expr.evalEntries (f.rename R.ρ) entries) := by
  cases entries with
  | nil =>
    rw [Expr.evalEntries, Expr.evalEntries]
    exact hR.pure (List.forall_mem_nil _)
  | cons entry rest =>
    obtain ⟨key, e⟩ := entry
    obtain ⟨hFirst, hRest⟩ := List.forall_mem_append.mp h
    obtain ⟨hKey, hValue⟩ := List.forall_mem_append.mp hFirst
    rw [Expr.evalEntries, Expr.evalEntries]
    refine hR.bind (eval hf key hKey) fun k hk => hR.bind (eval hf e hValue) fun v hv => ?_
    refine hR.bind (evalEntries hf rest hRest) fun others hOthers => ?_
    exact hR.pure (List.forall_mem_cons.mpr ⟨⟨hk, hv⟩, hOthers⟩)

end

section

variable (hf : f.Within R.known)
include hf

/-- An expression that may be missing. -/
theorem evalOptional (e : Option Expr) (h : ∀ v ∈ Expr.constantsOptional e, v.Fixed R.ρ R.known) :
    R.Holds (.option .value) (Run.evalOptional f e) (Run.evalOptional (f.rename R.ρ) e) := by
  cases e with
  | some e => exact hR.bind (hR.eval hf e h) fun _ hv => hR.pure fun _ h => Option.some.inj h ▸ hv
  | none => exact hR.pure fun _ h => by cases h

theorem evalState (e : Expr) (h : ∀ v ∈ e.constants, v.Fixed R.ρ R.known) :
    R.Holds .state (Run.evalState f e) (Run.evalState (f.rename R.ρ) e) :=
  hR.bind (hR.eval hf e h) fun _ hv => hR.stateOf hv

end

end Lawful

end Correspondence

end RuleMachine
