import RuleMachine.Proofs.Lifecycle
import RuleMachine.Proofs.Reports
import RuleMachine.Proofs.Turns

/-!
# Action lists

An action list is nothing, a single function, or a value that yields functions and nothing else.
What is read of it are these functions, in order, and a stream is used up by that. Of a value that
is no action list, the first item that is no function is reported with its place, or the kind of
the value if it yields no items at all. What was read of an action list is one itself, and reading
it again changes nothing.

To run an action list is to call each of its functions once, in order and with the same arguments,
until one fails.

* `Streams.actionProblems_eq_nil`, `Streams.noActions_iff`: what is wrong with a value as an action
  list.
* `readActions_eq_ok`, `readActions_eq_error`: what reading a value comes to.
* `Config.completes_runActions`: what running an action list completes with.
* `Config.action_list`: all of this, for every value.
-/

namespace RuleMachine

-- ---------------------------------------------------------------------------
-- Items that are functions
-- ---------------------------------------------------------------------------

theorem Value.function?_eq_none_iff {v : Value} : v.function? = none ↔ ∀ f, v ≠ .function f := by
  cases v <;> simp [function?]

/-- No item misfits exactly if the items are the values of some functions. -/
theorem misfits_function_eq_nil {ε : Type} {problem : Nat → Value → ε} {items : List Value} :
    misfits Value.function? problem items = [] ↔
      ∃ fs : List FunctionName, items = fs.map .function := by
  constructor
  · intro h
    -- the position only enters the problem, so the induction is for every way of naming it
    induction items generalizing problem with
    | nil => exact ⟨[], rfl⟩
    | cons v rest ih =>
      rw [misfits_cons, List.append_eq_nil_iff] at h
      obtain ⟨fs, rfl⟩ := ih h.2
      cases v with
      | function f => exact ⟨f :: fs, rfl⟩
      | _ => cases h.1
  · rintro ⟨fs, rfl⟩
    refine misfits_eq_nil fun v hv => ?_
    obtain ⟨f, -, rfl⟩ := List.mem_map.mp hv
    rfl

theorem filterMap_function? (fs : List FunctionName) :
    (fs.map Value.function).filterMap Value.function? = fs := by
  rw [List.filterMap_map]
  exact List.filterMap_some

-- ---------------------------------------------------------------------------
-- What values yield
-- ---------------------------------------------------------------------------

namespace Streams

variable {s : Streams} {v : Value} {items : List Value} {fs : List FunctionName}
  {problem : ActionProblem}

/-- What a value yields, in order. Text and bytes yield nothing. -/
inductive Yields (s : Streams) : Value → List Value → Prop
  | list (items : List Value) : Yields s (.list items) items
  | tuple (items : List Value) : Yields s (.tuple items) items
  | set (items : List Value) : Yields s (.set items) items
  /-- A map yields its keys. -/
  | map (entries : Entries) : Yields s (.map entries) entries.keys
  /-- A stream yields what it has left. -/
  | stream (id : Nat) : Yields s (.stream id) (s.rest id)

/-- What `items?` computes is what a value yields. -/
theorem items?_eq_some_iff : s.items? v = some items ↔ s.Yields v items := by
  constructor
  · intro h
    cases v with
    | list _ | tuple _ | set _ | map _ | stream _ =>
      obtain rfl := Option.some.inj h
      constructor
    | _ => cases h
  · intro h
    cases h <;> rfl

theorem items?_eq_none_iff : s.items? v = none ↔ ∀ items, ¬ s.Yields v items := by
  simp only [Option.eq_none_iff_forall_ne_some, Ne, items?_eq_some_iff]

theorem Yields.ne_null (h : s.Yields v items) : v ≠ .null := by
  rintro rfl
  cases h

theorem Yields.ne_function (h : s.Yields v items) (f : FunctionName) : v ≠ .function f := by
  rintro rfl
  cases h

/-- An action list is nothing, a single function, or what yields functions and nothing else. -/
theorem listsActions_iff :
    s.ListsActions v fs ↔
      v = .null ∧ fs = [] ∨ (∃ f, v = .function f ∧ fs = [f]) ∨ s.Yields v (fs.map .function) := by
  constructor
  · intro h
    cases h with
    | none => exact .inl ⟨rfl, rfl⟩
    | single f => exact .inr (.inl ⟨f, rfl, rfl⟩)
    | items hItems => exact .inr (.inr (items?_eq_some_iff.mp hItems))
  · rintro (⟨rfl, rfl⟩ | ⟨f, rfl, rfl⟩ | hYields)
    · exact .none
    · exact .single f
    · exact .items (items?_eq_some_iff.mpr hYields)

/-- An action list is of the functions that are read. -/
theorem ListsActions.functions_eq (h : s.ListsActions v fs) : s.functions v = fs := by
  cases h with
  | none => rfl
  | single f => rfl
  | items hItems =>
    cases v with
    | null | function f => cases hItems
    | _ =>
      show s.itemsOf Value.function? _ = fs
      rw [itemsOf, hItems]
      exact filterMap_function? fs

-- ---------------------------------------------------------------------------
-- What is wrong with a value as an action list
-- ---------------------------------------------------------------------------

/-- What is wrong with a value that is neither nothing nor a single function, its items say. -/
theorem actionProblems_of_ne (hNull : v ≠ .null) (hFunction : ∀ f, v ≠ .function f) :
    s.actionProblems v =
      s.itemViolations Value.function? (.notActions v.typeName) .notFunction v := by
  cases v with
  | null => exact absurd rfl hNull
  | function f => exact absurd rfl (hFunction f)
  | _ => rfl

/-- Nothing is wrong with a value as an action list exactly if it is one. -/
theorem actionProblems_eq_nil : s.actionProblems v = [] ↔ ∃ fs, s.ListsActions v fs := by
  by_cases hNull : v = .null
  · subst hNull
    exact iff_of_true rfl ⟨[], .none⟩
  by_cases hFunction : ∃ f, v = .function f
  · obtain ⟨f, rfl⟩ := hFunction
    exact iff_of_true rfl ⟨[f], .single f⟩
  -- beyond nothing and a lone function only what the value yields counts
  rw [actionProblems_of_ne hNull (not_exists.mp hFunction), itemViolations]
  constructor
  · intro h
    cases hItems : s.items? v with
    | none => simp [hItems] at h
    | some items =>
      rw [hItems] at h
      obtain ⟨fs, rfl⟩ := misfits_function_eq_nil.mp h
      exact ⟨fs, .items hItems⟩
  · rintro ⟨fs, hList⟩
    cases hList with
    | none => exact absurd rfl hNull
    | single f => exact absurd ⟨f, rfl⟩ hFunction
    | items hItems =>
      rw [hItems]
      exact misfits_function_eq_nil.mpr ⟨fs, rfl⟩

/-- Why a value is no action list. -/
inductive NoActions (s : Streams) (v : Value) : ActionProblem → Prop
  /-- It yields an item that is no function, and the items before that one are functions. -/
  | item {items : List Value} {i : Nat} {item : Value} (hYields : s.Yields v items)
    (hItem : items[i]? = some item) (hMisfit : ∀ f, item ≠ .function f)
    (hFirst : ∀ u ∈ items.take i, ∃ f, u = .function f) : NoActions s v (.notFunction i item)
  /-- It is something, and no function, and yields nothing. -/
  | kind (hNull : v ≠ .null) (hFunction : ∀ f, v ≠ .function f)
    (hNothing : ∀ items, ¬ s.Yields v items) : NoActions s v (.notActions v.typeName)

/-- Why a value is no action list is the first thing that is wrong with it. -/
theorem noActions_iff : s.NoActions v problem ↔ (s.actionProblems v).head? = some problem := by
  have hSome {u : Value} : u.function? ≠ none ↔ ∃ f, u = .function f := by
    rw [Ne, Value.function?_eq_none_iff]
    simp
  constructor
  · -- an item that is no function, at the smallest index, or a value that yields nothing
    rintro (⟨hYields, hItem, hMisfit, hFirst⟩ | ⟨hNull, hFunction, hNothing⟩)
    · rw [actionProblems_of_ne hYields.ne_null hYields.ne_function, itemViolations,
        items?_eq_some_iff.mpr hYields]
      refine head?_misfits.mpr ⟨_, _, hItem, Value.function?_eq_none_iff.mpr hMisfit, ?_, rfl⟩
      exact fun u hu => hSome.mpr (hFirst u hu)
    · rw [actionProblems_of_ne hNull hFunction, itemViolations, items?_eq_none_iff.mpr hNothing]
      rfl
  · intro h
    -- a problem excludes the two shapes that are never looked into
    have hNull : v ≠ .null := by
      rintro rfl
      cases h
    have hFunction (f : FunctionName) : v ≠ .function f := by
      rintro rfl
      cases h
    rw [actionProblems_of_ne hNull hFunction, itemViolations] at h
    cases hItems : s.items? v with
    | none =>
      rw [hItems] at h
      obtain rfl := Option.some.inj h
      exact .kind hNull hFunction (items?_eq_none_iff.mp hItems)
    | some items =>
      rw [hItems] at h
      obtain ⟨i, item, hItem, hMisfit, hFirst, rfl⟩ := head?_misfits.mp h
      exact .item (items?_eq_some_iff.mp hItems) hItem (Value.function?_eq_none_iff.mp hMisfit)
        fun u hu => hSome.mp (hFirst u hu)

end Streams

-- ---------------------------------------------------------------------------
-- Reading action lists
-- ---------------------------------------------------------------------------

section

variable {s : Streams} {v : Value} {fs : List FunctionName} {problem : ActionProblem}

/-- Functions are read of action lists, and of nothing else. -/
theorem readActions_eq_ok : ((readActions v).result s).1 = .ok fs ↔ s.ListsActions v fs := by
  rw [(readActions_reports v).outcome, reported_eq_ok_iff, Streams.actionProblems_eq_nil]
  constructor
  · rintro ⟨⟨fs', hList⟩, rfl⟩
    rwa [hList.functions_eq]
  · intro hList
    exact ⟨⟨fs, hList⟩, hList.functions_eq⟩

/-- A value is refused with a problem exactly if that problem is the first there is with it. -/
theorem readActions_eq_error :
    ((readActions v).result s).1 = .error problem ↔ s.NoActions v problem := by
  rw [(readActions_reports v).outcome, reported_eq_error_iff, Streams.noActions_iff]

/-- All that a value yields is taken, whether or not it is functions only. -/
theorem streams_readActions (v : Value) (s : Streams) :
    ((readActions v).result s).2 = s.take v ((s.items? v).getD []).length := by
  cases v <;> rfl

/-- Reading a stream as an action list leaves nothing of it, whatever the outcome. -/
theorem rest_readActions_stream (s : Streams) (id : Nat) :
    ((readActions (.stream id)).result s).2.rest id = [] := by
  rw [streams_readActions]
  simp only [Streams.items?, Option.getD_some, Streams.take, Streams.rest, List.getElem?_modify,
    if_true]
  cases s.left[id]? <;> simp

/-- No other stream is used. -/
theorem rest_readActions_of_ne {id : Nat} (h : v ≠ .stream id) :
    ((readActions v).result s).2.rest id = s.rest id := by
  rw [streams_readActions]
  refine Streams.rest_take_of_not_mem (fun hMem => h ?_) _
  cases v with
  | stream other => rw [List.mem_singleton.mp hMem]
  | _ => cases hMem

/-- What was read is an action list itself, of the same functions. -/
theorem readActionsAt_functions (place : ActionPlace) (fs : List FunctionName) (s : Streams) :
    (readActionsAt place (.tuple (fs.map .function))).result s = (.ok fs, s) := by
  have hList : s.ListsActions (.tuple (fs.map .function)) fs := .items rfl
  have hStreams : ((readActions (.tuple (fs.map .function))).result s).2 = s :=
    streams_readActions _ s
  exact Reading.mapProblem_eq_ok.mpr (Prod.ext (readActions_eq_ok.mpr hList) hStreams)

end

-- ---------------------------------------------------------------------------
-- Running action lists
-- ---------------------------------------------------------------------------

/-- Functions called in turn with the same arguments, until one fails: what is done, the outcome,
and the world that is left. -/
inductive InTurn (handler : Handler) (args : List Value) :
    World → List FunctionName → List Deed → Except Fault Unit → World → Prop
  /-- None is left to be called. -/
  | done (w : World) : InTurn handler args w [] [] (.ok ()) w
  /-- One returns, whatever it returns, and those after it are called in turn. -/
  | returned {w w₁ w₂ : World} {f : FunctionName} {rest : List FunctionName} {v : Value}
    {ds : List Deed} {r : Except Fault Unit}
    (hCall : (Config.calling handler f args w).Ends handler (.ok v) w₁)
    (hRest : InTurn handler args w₁ rest ds r w₂) :
    InTurn handler args w (f :: rest)
      ({ act := .call f args, before := w, after := w₁, failure := none } :: ds) r w₂
  /-- One fails, and those after it are not called. -/
  | failed {w w₁ : World} {f : FunctionName} {rest : List FunctionName} {fault : Fault}
    (hCall : (Config.calling handler f args w).Ends handler (.error fault) w₁) :
    InTurn handler args w (f :: rest)
      [{ act := .call f args, before := w, after := w₁, failure := some fault }]
      (.error fault) w₁

/-- **What running an action list does** with some arguments, from a world on. -/
structure Config.RunsInTurn (handler : Handler) (fs : List FunctionName) (args : List Value)
    (w : World) : Prop where
  /-- Each moment is one of the run itself, or one during a call that it makes. -/
  moments : ∀ n, ∃ ds c', (begin (Run.runActions fs args) w).Did handler ds c' ∧
    c'.During handler ((begin (Run.runActions fs args) w).after .standard handler n)
  /-- At each of them the calls so far, and the one that is being made, begin the list, and nothing
  is called after a failure. -/
  order : ∀ ds c', (begin (Run.runActions fs args) w).Did handler ds c' →
    Abides (calls fs args) (fun _ => True) ds c'.program
  /-- A run comes to its end exactly as calling the functions in turn does. -/
  ends : ∀ ds r w', (begin (Run.runActions fs args) w).Completes handler ds r w' ↔
    InTurn handler args w fs ds r w'

namespace Config

/-- An action list completes as `InTurn` says: the functions are called one after the other with the
same arguments, up to the first that fails. -/
theorem completes_runActions {handler : Handler} {fs : List FunctionName} {args : List Value}
    {w w' : World} {ds : List Deed} {r : Except Fault Unit} :
    (begin (Run.runActions fs args) w).Completes handler ds r w' ↔
      InTurn handler args w fs ds r w' := by
  induction fs generalizing w ds with
  | nil =>
    constructor
    · intro h
      obtain ⟨rfl, rfl, rfl⟩ := completes_pure.mp h
      exact .done _
    · intro h
      cases h
      exact completes_pure.mpr ⟨rfl, rfl, rfl⟩
  | cons f rest ih =>
    rw [Run.runActions, completes_bind]
    constructor
    · -- the first call fails and is the last, or it returns and the others follow
      rintro (⟨fault, hFails, rfl⟩ | ⟨v, w₁, _, others, rfl, hReturns, hRest⟩)
      · obtain ⟨hCall, rfl⟩ := completes_call.mp hFails
        exact .failed hCall
      · obtain ⟨hCall, rfl⟩ := completes_call.mp hReturns
        exact .returned hCall (ih.mp hRest)
    · intro h
      cases h with
      | @returned _ _ _ _ _ v _ _ hCall hRest =>
        refine .inr ⟨v, _, [_], _, List.singleton_append.symm, ?_, ih.mpr hRest⟩
        exact completes_call.mpr ⟨hCall, rfl⟩
      | failed hCall => exact .inl ⟨_, completes_call.mpr ⟨hCall, rfl⟩, rfl⟩

/-- Of every action list it holds that its functions are called in their order, and that the first
failure ends the calls. -/
theorem runsInTurn (handler : Handler) (fs : List FunctionName) (args : List Value) (w : World) :
    RunsInTurn handler fs args w where
  moments := (begin (Run.runActions fs args) w).did_after
  order := Follows.runActions fs args w
  ends _ _ _ := completes_runActions

end Config

-- ---------------------------------------------------------------------------
-- All of it
-- ---------------------------------------------------------------------------

/-- **What a value comes to as an action list** that stands at some place, when it is read in a
world: an outcome, and what is left in streams. -/
structure World.ReadsActions (handler : Handler) (w : World) (place : ActionPlace) (v : Value)
    (r : Except Fault (List FunctionName)) (left : Streams) : Prop where
  /-- Nothing is the list of no functions, a function is the list of itself, and a value that yields
  functions and nothing else is the list of these, in order. No other value is an action list. -/
  accepts : ∀ fs, r = .ok fs ↔
    v = .null ∧ fs = [] ∨ (∃ f, v = .function f ∧ fs = [f]) ∨
      w.streams.Yields v (fs.map .function)
  /-- Otherwise the first item that is no function is reported, or the kind of a value that yields
  no items. -/
  rejects : ∀ fault, r = .error fault ↔
    ∃ problem, w.streams.NoActions v problem ∧ fault = w.fault (.actions place problem)
  /-- The message tells the place of the item. -/
  names : ∀ i item, (w.fault (.actions place (.notFunction i item))).message =
    place.text w.refText ++ " item " ++ toString i ++ " is not callable: " ++
      item.literal w.refText
  /-- A stream is used up, in both cases. -/
  drains : ∀ id, v = .stream id → left.rest id = []
  /-- No other stream is. -/
  spares : ∀ id, v ≠ .stream id → left.rest id = w.streams.rest id
  /-- What was read, read again anywhere, comes to the same, and uses no streams. -/
  again : ∀ fs, r = .ok fs → ∀ place' s,
    (readActionsAt place' (.tuple (fs.map .function))).result s = (.ok fs, s)
  /-- It can be run at any time. -/
  runs : ∀ fs, r = .ok fs → ∀ args w', Config.RunsInTurn handler fs args w'

/-- What a value comes to as an action list, its kind and its items say. -/
theorem World.readsActions (handler : Handler) (w : World) (place : ActionPlace) (v : Value) :
    w.ReadsActions handler place v
      (((readActionsAt place v).result w.streams).1.mapError w.fault)
      ((readActionsAt place v).result w.streams).2 := by
  have hOutcome : ((readActionsAt place v).result w.streams).1 =
      ((readActions v).result w.streams).1.mapError (Cause.actions place) := rfl
  exact
    { accepts := by
        intro fs
        rw [← Streams.listsActions_iff, ← readActions_eq_ok, hOutcome]
        cases ((readActions v).result w.streams).1 <;> simp [Except.mapError]
      rejects := by
        intro fault
        simp only [← readActions_eq_error]
        rw [hOutcome]
        cases ((readActions v).result w.streams).1 <;> simp [Except.mapError, eq_comm]
      names := by
        intro i item
        have hText : (w.fault (.actions place (.notFunction i item))).message =
            place.text w.refText ++
              (" item " ++ toString i ++ " is not callable: " ++ item.literal w.refText) := rfl
        rw [hText]
        simp only [String.append_assoc]
      drains := by
        rintro id rfl
        exact rest_readActions_stream w.streams id
      spares := fun _ h => rest_readActions_of_ne h
      again := fun fs _ place' s => readActionsAt_functions place' fs s
      runs := fun fs _ args w' => Config.runsInTurn handler fs args w' }

/-- **What a value comes to as an action list** is found out without calling any function. -/
theorem Config.action_list (handler : Handler) (w : World) (place : ActionPlace) (v : Value) :
    let reading := readActionsAt place v
    ∃ ds r streams,
      (begin (Run.reading reading) w).Completes handler ds r { w with streams } ∧
        (∀ d ∈ ds, d.act = .perform (.read reading)) ∧
        w.ReadsActions handler place v r streams := by
  intro reading
  let p : Primitive (List FunctionName) := .read reading
  have hCompletes : (begin (Run.act p) w).Completes handler (p.deeds w)
      ((p.effect w).1.mapError w.fault) (p.effect w).2 := completes_act.mpr ⟨rfl, rfl, rfl⟩
  refine ⟨_, _, _, hCompletes, fun d hd => ?_, w.readsActions handler place v⟩
  rw [Primitive.mem_deeds hd]

/-- Of a stream of three items, the second is no function, and the third is gone as well. -/
example :
    let s : Streams := { left := [[.function "ring", .int 3, .function "wait"]] }
    (readActions (.stream 0)).result s = (.error (.notFunction 1 (.int 3)), { left := [[]] }) := rfl

end RuleMachine
