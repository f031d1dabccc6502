import RuleMachine.Proofs.Refusals
import RuleMachine.Proofs.Violations

/-!
# Reading reports the first violation

Each part of a table is read in such a way that the first of its violations is reported, or, if
there is none, what it describes is the result. `Reading.Reports` says that of a reading; in a
sequence of readings the violations follow each other. What makes this work is that no two parts
read the same stream.

* `Reading.Reports.bind`: one reading after another.
* `readTable_reports`: whole tables.
* `Config.build_reports`: building a machine.
-/

namespace RuleMachine

/-- The outcome of a check that comes to some violations: the first one, or else a result. -/
def reported {ε α : Type} (violations : List ε) (a : α) : Except ε α :=
  match violations with
  | [] => .ok a
  | first :: _ => .error first

/-- There is a result exactly if there are no violations. -/
theorem reported_eq_ok_iff {ε α : Type} {violations : List ε} {a b : α} :
    reported violations a = .ok b ↔ violations = [] ∧ a = b := by
  cases violations <;> simp [reported]

/-- What is reported is the first of them. -/
theorem reported_eq_error_iff {ε α : Type} {violations : List ε} {a : α} {e : ε} :
    reported violations a = .error e ↔ violations.head? = some e := by
  cases violations <;> simp [reported]

-- ---------------------------------------------------------------------------
-- Readings that report violations
-- ---------------------------------------------------------------------------

namespace Streams

variable {s t : Streams} {v : Value}

/-- Taking items of a value takes them from its own stream only. -/
theorem rest_take_of_not_mem {id : Nat} (h : id ∉ v.sources) (count : Nat) :
    (s.take v count).rest id = s.rest id := by
  cases v with
  | stream other =>
    have hNe : other ≠ id := fun hSame => h (by simp [Value.sources, hSame])
    simp [take, rest, hNe]
  | _ => rfl

/-- The items of a value depend on what its own stream has left. -/
theorem items?_congr (h : ∀ id ∈ v.sources, t.rest id = s.rest id) : t.items? v = s.items? v := by
  cases v with
  | stream id => exact congrArg some (h id List.mem_cons_self)
  | _ => rfl

end Streams

namespace Reading

variable {ε ε' α β : Type}

/-- **Whether a reading reports the first of some violations,** or gives a result if there are none,
wherever some streams have left what they have left in `s`. No other streams are used up. -/
def Reports (s : Streams) (ids : List Nat) (violations : List ε) (a : α) (r : Reading ε α) : Prop :=
  ∀ t : Streams, (∀ id ∈ ids, t.rest id = s.rest id) →
    (r.result t).1 = reported violations a ∧ ∀ id, id ∉ ids → (r.result t).2.rest id = t.rest id

namespace Reports

variable {s : Streams} {ids ids' : List Nat} {vs ws : List ε} {a : α} {b : β}

/-- What a reading comes to with the streams as they are. -/
theorem outcome {x : Reading ε α} (hx : x.Reports s ids vs a) :
    (x.result s).1 = reported vs a :=
  (hx s fun _ _ => rfl).1

theorem pure (s : Streams) (a : α) : Reports s [] [] a (Pure.pure a : Reading ε α) :=
  fun _ _ => ⟨rfl, fun _ _ => rfl⟩

/-- A violation is reported whatever else is wrong. -/
theorem throw (s : Streams) (ids : List Nat) (e : ε) (vs : List ε) (a : α) :
    Reports s ids (e :: vs) a (MonadExcept.throw e : Reading ε α) :=
  fun _ _ => ⟨rfl, fun _ _ => rfl⟩

/-- A check that looks at no stream. -/
theorem ofExcept {r : Except ε α} (h : r = reported vs a) :
    Reports s [] vs a (Reading.ofExcept r) :=
  fun _ _ => ⟨h, fun _ _ => rfl⟩

/-- In a sequence of readings that share no stream, the violations follow each other. What comes
after the first one is of interest only if that has none. -/
theorem bind {x : Reading ε α} {k : α → Reading ε β} (hx : x.Reports s ids vs a)
    (hk : vs = [] → (k a).Reports s ids' ws b) (hApart : ids.Disjoint ids') :
    (x >>= k).Reports s (ids ++ ids') (vs ++ ws) b := by
  intro t ht
  obtain ⟨hOutcome, hSpares⟩ := hx t fun id hId => ht id (List.mem_append_left _ hId)
  rw [result_bind]
  cases vs with
  | cons first rest =>
    have hResult : x.result t = (.error first, (x.result t).2) := Prod.ext hOutcome rfl
    rw [hResult]
    exact ⟨rfl, fun id hId => hSpares id fun hMem => hId (List.mem_append_left _ hMem)⟩
  | nil =>
    have hResult : x.result t = (.ok a, (x.result t).2) := Prod.ext hOutcome rfl
    rw [hResult]
    -- what the second reading reads is still there
    have hLeft : ∀ id ∈ ids', (x.result t).2.rest id = s.rest id := fun id hId => by
      rw [hSpares id fun hMem => hApart hMem hId, ht id (List.mem_append_right _ hId)]
    obtain ⟨hOutcome', hSpares'⟩ := hk rfl _ hLeft
    refine ⟨hOutcome', fun id hId => ?_⟩
    rw [List.mem_append, not_or] at hId
    rw [hSpares' id hId.2, hSpares id hId.1]

/-- A second reading that reads no streams, after one that does not fail. -/
theorem andThen {x : Reading ε α} {k : α → Reading ε β} (hx : x.Reports s ids [] a)
    (hk : (k a).Reports s [] ws b) : (x >>= k).Reports s ids ws b := by
  simpa using hx.bind (fun _ => hk) (List.disjoint_nil_right ids)

/-- A last step that only puts the result together. -/
theorem map {x : Reading ε α} (hx : x.Reports s ids vs a) (f : α → β) :
    (x >>= fun a => Pure.pure (f a)).Reports s ids vs (f a) := by
  have hPut : (Pure.pure (f a) : Reading ε β).Reports s [] [] (f a) := .pure s (f a)
  simpa using hx.bind (k := fun a => Pure.pure (f a)) (fun _ => hPut) (List.disjoint_nil_right ids)

/-- Describing problems otherwise, one by one. -/
theorem mapProblem {x : Reading ε α} (hx : x.Reports s ids vs a) (f : ε → ε') :
    (x.mapProblem f).Reports s ids (vs.map f) a := by
  intro t ht
  obtain ⟨hOutcome, hSpares⟩ := hx t ht
  rw [result_mapProblem, hOutcome]
  refine ⟨?_, hSpares⟩
  cases vs <;> rfl

end Reports

end Reading

-- ---------------------------------------------------------------------------
-- Items of some kind
-- ---------------------------------------------------------------------------

/-- The first item fits or it does not, and the others are counted from one on. -/
theorem misfits_cons {ε β : Type} (kind : Value → Option β) (problem : Nat → Value → ε) (v : Value)
    (rest : List Value) :
    misfits kind problem (v :: rest) = violationIf (kind v).isNone (problem 0 v) ++
      misfits kind (fun i => problem (i + 1)) rest := by
  rw [misfits, List.zipIdx_cons', List.flatMap_cons, List.flatMap_map]
  rfl

/-- The first violation is by the first item that is not of the kind. -/
theorem head?_misfits {ε β : Type} {kind : Value → Option β} {problem : Nat → Value → ε}
    {items : List Value} {e : ε} :
    (misfits kind problem items).head? = some e ↔
      ∃ i v, items[i]? = some v ∧ kind v = none ∧ (∀ u ∈ items.take i, kind u ≠ none) ∧
        e = problem i v := by
  induction items generalizing problem with
  | nil => simp [misfits]
  | cons v rest ih =>
    rw [misfits_cons]
    cases hKind : kind v with
    | none =>
      constructor
      · intro h
        exact ⟨0, v, rfl, hKind, nofun, (Option.some.inj h).symm⟩
      · rintro ⟨i, u, hItem, -, hEarlier, rfl⟩
        cases i with
        | zero =>
          cases hItem
          rfl
        | succ i => exact absurd hKind (hEarlier v List.mem_cons_self)
    | some b =>
      -- the first item is of the kind, so the places are those in the rest, and one more
      show (misfits kind (fun i => problem (i + 1)) rest).head? = some e ↔ _
      rw [ih]
      constructor
      · rintro ⟨i, u, hItem, hMisfit, hEarlier, rfl⟩
        refine ⟨i + 1, u, hItem, hMisfit, ?_, rfl⟩
        exact List.forall_mem_cons.mpr ⟨by simp [hKind], hEarlier⟩
      · rintro ⟨i, u, hItem, hMisfit, hEarlier, rfl⟩
        cases i with
        | zero =>
          cases hItem
          rw [hKind] at hMisfit
          cases hMisfit
        | succ i =>
          exact ⟨i, u, hItem, hMisfit, (List.forall_mem_cons.mp hEarlier).2, rfl⟩

/-- What is done to a result is done to it after the check. -/
theorem map_reported {ε α β : Type} (f : α → β) (violations : List ε) (a : α) :
    (reported violations a).map f = reported violations (f a) := by
  cases violations <;> rfl

/-- The first item that is no function is reported with its position. -/
theorem functionsFrom_reported (index : Nat) (items : List Value) :
    functionsFrom index items =
      reported (misfits Value.function? (fun i => .notFunction (index + i)) items)
        (items.filterMap Value.function?) := by
  induction items generalizing index with
  | nil => rfl
  | cons v rest ih =>
    rw [misfits_cons, functionsFrom, List.filterMap_cons]
    cases v.function? with
    | none => rfl
    | some name =>
      -- positions are counted from the item at which reading goes on
      have hShift : (fun i => ActionProblem.notFunction (index + (i + 1))) =
          fun i => .notFunction (index + 1 + i) := by
        funext i
        rw [Nat.add_right_comm, Nat.add_assoc]
      show (functionsFrom (index + 1) rest).map (name :: ·) = _
      rw [ih, map_reported, hShift]
      rfl

/-- The outcome of reading pairs from some items, up to the first that is none. -/
def pairsOutcome {ε : Type} (notPair : Nat → Value → ε) (items : List Value) :
    Except ε (List (Value × Value)) :=
  match items[(leadingPairs items).length]? with
  | some item => .error (notPair (leadingPairs items).length item)
  | none => .ok ((leadingPairs items).filterMap id)

/-- A pair at the beginning is read, and then the others. -/
theorem pairsOutcome_cons {ε : Type} (notPair : Nat → Value → ε) {v : Value} {pair : Value × Value}
    (hPair : v.pair? = some pair) (rest : List Value) :
    pairsOutcome notPair (v :: rest) =
      (pairsOutcome (fun i => notPair (i + 1)) rest).map (pair :: ·) := by
  have hLeading : leadingPairs (v :: rest) = some pair :: leadingPairs rest := by
    simp [leadingPairs, hPair]
  rw [pairsOutcome, pairsOutcome, hLeading, List.length_cons, List.getElem?_cons_succ]
  cases rest[(leadingPairs rest).length]? <;> rfl

/-- The first item that is no pair is reported with its position. -/
theorem pairsOutcome_reported {ε : Type} (notPair : Nat → Value → ε) (items : List Value) :
    pairsOutcome notPair items =
      reported (misfits Value.pair? notPair items) (items.filterMap Value.pair?) := by
  induction items generalizing notPair with
  | nil => rfl
  | cons v rest ih =>
    rw [misfits_cons, List.filterMap_cons]
    cases hPair : v.pair? with
    | none => simp [pairsOutcome, leadingPairs, hPair, violationIf, reported]
    | some pair =>
      rw [pairsOutcome_cons notPair hPair, ih, map_reported]
      rfl

open Reading (Reports)

variable {s : Streams}

/-- Pairs are read from any value but a map, which has its pairs by itself. -/
theorem readPairs_reports {ε : Type} {v : Value} (hMap : ∀ entries, v ≠ .map entries)
    (notPairs : ε) (notPair : Nat → Value → ε) :
    Reports s v.sources (s.pairViolations notPairs notPair v) (s.pairs v)
      (readPairs v notPairs notPair) := by
  intro t ht
  have hViolations : s.pairViolations notPairs notPair v =
      s.itemViolations Value.pair? notPairs notPair v := by
    cases v with
    | map entries => exact absurd rfl (hMap entries)
    | _ => rfl
  have hPairs : s.pairs v = s.itemsOf Value.pair? v := by
    cases v with
    | map entries => exact absurd rfl (hMap entries)
    | _ => rfl
  rw [result_readPairs, Streams.items?_congr ht, hViolations, hPairs, Streams.itemViolations,
    Streams.itemsOf]
  cases s.items? v with
  | none => exact ⟨rfl, fun _ _ => rfl⟩
  -- reading takes the items up to the first that is no pair, all from the stream of the value
  | some items =>
    exact ⟨pairsOutcome_reported notPair items, fun id hId => Streams.rest_take_of_not_mem hId _⟩

/-- Asking for items reports nothing. What is no container has none. -/
theorem readItems?_reports {ε : Type} (v : Value) :
    Reports s v.sources [] (s.items? v) (readItems? v : Reading ε (Option (List Value))) := by
  intro t ht
  rw [result_readItems?, Streams.items?_congr ht]
  cases s.items? v with
  | none => exact ⟨rfl, fun _ _ => rfl⟩
  | some items => exact ⟨rfl, fun id hId => Streams.rest_take_of_not_mem hId _⟩

/-- An action list is null, a function or a container of functions. -/
theorem readActions_reports (v : Value) :
    Reports s v.sources (s.actionProblems v) (s.functions v) (readActions v) := by
  have hItems (items : List Value) : functionsFrom 0 items =
      reported (misfits Value.function? .notFunction items) (items.filterMap Value.function?) := by
    have hReported := functionsFrom_reported 0 items
    simp only [Nat.zero_add] at hReported
    exact hReported
  cases v with
  | null => exact .pure s _
  | function name => exact .pure s _
  | list _ | tuple _ | map _ | set _ | stream _ =>
    exact (readItems?_reports _).andThen (.ofExcept (hItems _))
  | _ => exact (readItems?_reports _).andThen (.throw s _ _ _ _)

-- ---------------------------------------------------------------------------
-- Reading rules
-- ---------------------------------------------------------------------------

/-- The value under a key, or null if the key is missing. -/
theorem Value.field_map (entries : Entries) (key : String) :
    (Value.map entries).field key = (entries.get? (.text key)).getD .null := rfl

/-- A label that is read is a text or null. -/
theorem readLabel_reported (record : Entries) :
    readLabel record =
      reported (violationIf (!((Value.map record).field "message").labels) .labelNotText)
        ((Value.map record).field "message").text? := by
  rw [readLabel, Value.field_map]
  cases record.get? (.text "message") with
  | none => rfl
  | some v => cases v <;> rfl

/-- A key is one of the known ones if it is one of their texts, and no other value is. -/
theorem any_eqv_text (known : List String) (key : Value) :
    (known.any fun name => key.eqv (.text name)) = key.text?.any known.contains := by
  rw [Bool.eq_iff_iff, List.any_eq_true]
  simp only [Value.eqv_text_iff]
  cases key <;> simp [Value.text?]

/-- Keys of a record that are none of its five, listed by themselves, are those that the check for
keys rejects. -/
theorem strayKeys_recordKeys (record : Entries) :
    record.strayKeys recordKeys = record.keys.filter fun key => !isRuleKey key :=
  congrArg (record.keys.filter ·)
    (funext fun key => congrArg not (any_eqv_text recordKeys key).symm)

/-- The same for the four keys of a definition. -/
theorem strayKeys_definitionKeys (entries : Entries) :
    entries.strayKeys definitionKeys = entries.keys.filter fun key => !isDefinitionKey key :=
  congrArg (entries.keys.filter ·)
    (funext fun key => congrArg not (any_eqv_text definitionKeys key).symm)

/-- **A record is checked in the order in which its violations are listed.** -/
theorem checkRecord_reported (record : Entries) :
    checkRecord record = reported (recordProblems record)
      (Predicate.ofValue ((Value.map record).field "rule"),
        ((Value.map record).field "message").text?, (Value.map record).actionList) := by
  unfold checkRecord recordProblems
  dsimp only
  rw [readLabel_reported, strayKeys_recordKeys]
  cases (record.keys.filter fun key => !isRuleKey key).isEmpty with
  | false => rfl
  | true =>
    rw [Value.field_map record "rule", Entries.contains]
    cases record.get? (.text "rule") with
    | none => rfl
    | some value =>
      simp only [Entries.contains]
      -- both keys for actions at once are refused before the kind of the rule is looked at
      cases (record.get? (.text "action")).isSome && (record.get? (.text "actions")).isSome with
      | true => rfl
      | false =>
        have hLabel {α : Type} (f : Option String → α) := map_reported f
          (violationIf (!((Value.map record).field "message").labels) RuleProblem.labelNotText)
          ((Value.map record).field "message").text?
        cases value <;> first | rfl | exact hLabel _

open Reading (Reports)

variable {s : Streams}

/-- A rule is a record, a list of a predicate and actions, or the predicate by itself. -/
theorem readRuleTo_reports (target : StateRef) (spec : Value) :
    Reports s spec.actionList.sources (s.ruleProblems spec) (s.rule target spec)
      (readRuleTo target spec) := by
  -- lists and tuples differ in nothing but their kind
  have hListed {spec : Value} {first : Value} {rest : List Value}
      (hShape : s.ruleProblems spec = (s.actionProblems (.list rest)).map .actions)
      (hRule : s.rule target spec =
        { target, predicate := .ofValue first, label := none, actions := s.functions (.list rest)
          kind := (Predicate.ofValue first).kind })
      (hSources : spec.actionList.sources = []) :
      Reports s spec.actionList.sources (s.ruleProblems spec) (s.rule target spec) (do
        let actions ← (readActions (.list rest)).mapProblem .actions
        return { target, predicate := .ofValue first, label := none, actions
                 kind := (Predicate.ofValue first).kind }) := by
    rw [hShape, hRule, hSources]
    exact ((readActions_reports (.list rest)).mapProblem _).map _
  cases spec with
  | map record =>
    refine (Reports.ofExcept (checkRecord_reported record)).bind (fun _ => ?_)
      (List.disjoint_nil_left _)
    exact ((readActions_reports _).mapProblem _).map _
  | list items | tuple items =>
    cases items with
    | nil => exact .throw s _ _ _ _
    | cons first rest => exact hListed rfl rfl rfl
  | _ => exact .pure s _

/-- Violations of a rule are reported with its source and its target. -/
theorem readRule_reports (source targetName : Value) (target : StateRef) (spec : Value) :
    Reports s spec.actionList.sources ((s.ruleProblems spec).map (.rule source targetName))
      (s.rule target spec) (readRule source targetName target spec) :=
  (readRuleTo_reports target spec).mapProblem _

/-- The rules of a state are missing, a map, or pairs. -/
theorem readRulePairs_reports (source spec : Value) :
    Reports s spec.sources (s.rulePairViolations source spec) (s.pairs spec)
      (readRulePairs source spec) := by
  cases spec with
  | null => exact .pure s _
  | map entries => exact .pure s _
  | _ =>
    exact readPairs_reports (fun _ h => by cases h) (Cause.notRules source) fun i item =>
      Cause.notRulePair i source item

-- Looking up what rules lead to.

section

variable {m : Machine} {names : List Value} (hStates : m.states.map State.name = names)
include hStates

/-- Names that are listed are those of the states, place by place. -/
theorem Machine.nameOf_eq (place : Nat) : m.nameOf place = names[place]?.getD .null := by
  subst hStates
  rw [nameOf, state, List.getElem?_map]
  cases m.states[place]? <;> rfl

/-- Targets are looked up among the names, unless they are states. -/
theorem Machine.resolve?_eq_placeOf {self : MachineRef} {target : Value}
    (hHashable : ∀ name ∈ names, name.hashable = true)
    (hTarget : ∀ ref, target = .state ref → ref.machine ≠ self ∧ target ∉ names) :
    m.resolve? self target = placeOf names target := by
  by_cases hState : ∃ ref, target = .state ref
  · -- a State object is not looked up by name, and as it is no name of the table it has no place
    -- either
    obtain ⟨ref, rfl⟩ := hState
    obtain ⟨hForeign, hNoName⟩ := hTarget ref rfl
    have hNone : placeOf names (.state ref) = none := by
      -- what is no key equals no name
      refine List.findIdx?_eq_none_iff.mpr fun name hName => ?_
      refine Bool.eq_false_iff.mpr fun hSame => hNoName ?_
      rwa [← Value.eq_state_of_eqv hSame]
    rw [hNone]
    exact if_neg fun hOwn => hForeign hOwn.1
  · rw [resolve?_of_ne (fun ref h => hState ⟨ref, h⟩), find?]
    subst hStates
    cases hHash : target.hashable with
    | true =>
      rw [if_pos rfl, placeOf, List.findIdx?_map]
      rfl
    | false =>
      rw [if_neg Bool.false_ne_true, eq_comm]
      refine List.findIdx?_eq_none_iff.mpr fun name hName => ?_
      refine Bool.eq_false_iff.mpr fun hSame => ?_
      rw [Value.hashable_of_eqv (hHashable name hName) hSame] at hHash
      cases hHash

/-- **The rules of a state are read pair by pair:** the target is looked up first, and then the rule
is read. -/
theorem readRules_reports {self : MachineRef} {source : Value} {pairs : List (Value × Value)}
    (hHashable : ∀ name ∈ names, name.hashable = true)
    (hTargets : ∀ pair ∈ pairs, ∀ ref, pair.1 = .state ref →
      ref.machine ≠ self ∧ pair.1 ∉ names)
    (hOnce : (pairs.flatMap fun (_, rule) => rule.actionList.sources).Nodup) :
    Reports s (pairs.flatMap fun (_, rule) => rule.actionList.sources)
      (pairs.flatMap fun (target, rule) => s.ruleViolations names source target rule)
      (pairs.map fun (target, rule) =>
        s.rule { machine := self, index := (placeOf names target).getD 0 } rule)
      (readRules m self source pairs) := by
  induction pairs with
  | nil => exact .pure s _
  | cons pair rest ih =>
    obtain ⟨target, spec⟩ := pair
    obtain ⟨hTarget, hRest⟩ := List.forall_mem_cons.mp hTargets
    rw [List.flatMap_cons, List.nodup_append'] at hOnce
    obtain ⟨-, hOnceRest, hApart⟩ := hOnce
    rw [readRules, Machine.resolve?_eq_placeOf hStates hHashable hTarget]
    simp only [List.flatMap_cons, List.map_cons]
    rw [Streams.ruleViolations]
    -- a target that is no name ends the reading, and its violation is the first of those that are
    -- left
    cases placeOf names target with
    | none => exact .throw s _ _ _ _
    | some place =>
      have hRule := readRule_reports (s := s) source (m.nameOf place)
        { machine := self, index := place } spec
      rw [Machine.nameOf_eq hStates] at hRule
      simp only [Machine.nameOf_eq hStates]
      exact hRule.bind (fun _ => (ih hRest hOnceRest).map _) hApart

/-- The rules of all states, in the order of the table. -/
theorem readAllRules_reports {self : MachineRef} {ds : List Declaration}
    (hHashable : ∀ name ∈ names, name.hashable = true)
    (hTargets : ∀ d ∈ ds, ∀ pair ∈ s.pairs d.rules, ∀ ref, pair.1 = .state ref →
      ref.machine ≠ self ∧ pair.1 ∉ names)
    (hOnce : (ds.flatMap fun d => s.ruleSources d.rules).Nodup) :
    Reports s (ds.flatMap fun d => s.ruleSources d.rules)
      (ds.flatMap fun d => s.rulesViolations names d.name d.rules)
      (ds.map fun d => s.rules self names d.rules) (readAllRules m self ds) := by
  induction ds with
  | nil => exact .pure s _
  | cons d rest ih =>
    obtain ⟨hTarget, hRest⟩ := List.forall_mem_cons.mp hTargets
    rw [List.flatMap_cons, List.nodup_append'] at hOnce
    obtain ⟨hOnceHere, hOnceRest, hApart⟩ := hOnce
    rw [Streams.ruleSources, List.nodup_append'] at hOnceHere
    obtain ⟨-, hOnceRules, hApartHere⟩ := hOnceHere
    rw [Streams.ruleSources, List.disjoint_append_left] at hApart
    rw [List.flatMap_cons, List.flatMap_cons, List.map_cons, Streams.ruleSources,
      Streams.rulesViolations, List.append_assoc, List.append_assoc]
    -- the pairs of a state are read before any rule of it, so the streams of both must differ
    refine (readRulePairs_reports d.name d.rules).bind (fun _ => ?_)
      (List.disjoint_append_right.mpr ⟨hApartHere, hApart.1⟩)
    refine (readRules_reports hStates hHashable hTarget hOnceRules).bind (fun _ => ?_)
      hApart.2
    exact (ih hRest hOnceRest).map _

end

-- ---------------------------------------------------------------------------
-- Reading entries
-- ---------------------------------------------------------------------------

/-- A name is refused if it is no key, or else if an earlier name equals it. -/
theorem checkName_reported (earlier : List Value) (name : Value) :
    checkName earlier name = reported (nameViolations earlier name) () := by
  unfold checkName nameViolations
  cases name.hashable with
  | false => rfl
  | true => cases earlier.any fun other => other.eqv name <;> rfl

/-- A definition is missing or a map, and its keys are known. -/
theorem checkDefinition_reported (name definition : Value) :
    checkDefinition name definition =
      reported (definitionViolations name definition) definition.entries := by
  cases definition with
  | map entries =>
    unfold checkDefinition definitionViolations
    dsimp only
    rw [strayKeys_definitionKeys]
    cases ((Entries.keys entries).filter fun key => !isDefinitionKey key).isEmpty <;> rfl
  | _ => rfl

/-- An entry has violations of its name, its definition and its three action lists, in this order.
-/
theorem readDeclaration_reports {earlier : List Value} {name definition : Value}
    (hOnce : (Streams.actionSources definition).Nodup) :
    Reports s (Streams.actionSources definition) (s.entryViolations earlier name definition)
      (s.declaration name definition) (readDeclaration earlier name definition) := by
  have hActions (slot : ActionSlot) := (readActions_reports (s := s)
    (definition.field slot.key)).mapProblem (Cause.actions (.slot slot name))
  have hSources : Streams.actionSources definition =
      (definition.field ActionSlot.onEnter.key).sources ++
        ((definition.field ActionSlot.body.key).sources ++
          (definition.field ActionSlot.onExit.key).sources) := by
    simp [Streams.actionSources, ActionSlot.all]
  have hViolations : s.entryViolations earlier name definition =
      nameViolations earlier name ++ (definitionViolations name definition ++
        ((s.actionProblems (definition.field ActionSlot.onEnter.key)).map
            (.actions (.slot .onEnter name)) ++
          ((s.actionProblems (definition.field ActionSlot.body.key)).map
              (.actions (.slot .body name)) ++
            (s.actionProblems (definition.field ActionSlot.onExit.key)).map
              (.actions (.slot .onExit name))))) := by
    simp [Streams.entryViolations, ActionSlot.all]
  rw [hSources] at hOnce ⊢
  rw [hViolations]
  obtain ⟨-, hOnce', hApart⟩ := List.nodup_append'.mp hOnce
  obtain ⟨-, -, hApart'⟩ := List.nodup_append'.mp hOnce'
  -- each part is read from streams of its own
  refine (Reports.ofExcept (checkName_reported earlier name)).bind (fun _ => ?_)
    (List.disjoint_nil_left _)
  refine (Reports.ofExcept (checkDefinition_reported name definition)).bind (fun _ => ?_)
    (List.disjoint_nil_left _)
  refine (hActions .onEnter).bind (fun _ => ?_) hApart
  exact (hActions .body).bind (fun _ => (hActions .onExit).map _) hApart'

/-- What is wrong with the entries of a table, apart from their rules. -/
def Streams.entriesViolations (s : Streams) (earlier : List Value)
    (entries : List (Value × Value)) : List Cause :=
  entries.zipIdx.flatMap fun ((name, definition), i) =>
    s.entryViolations (earlier ++ (entries.map Prod.fst).take i) name definition

/-- The violations of the first entry, followed by those of the others beside its name. -/
theorem Streams.entriesViolations_cons (s : Streams) (earlier : List Value)
    (name definition : Value) (rest : List (Value × Value)) :
    s.entriesViolations earlier ((name, definition) :: rest) =
      s.entryViolations earlier name definition ++
        s.entriesViolations (earlier ++ [name]) rest := by
  unfold entriesViolations
  rw [List.zipIdx_cons', List.flatMap_cons, List.flatMap_map]
  simp

/-- The entries are read one by one, each beside the names of the earlier ones. -/
theorem readDeclarations_reports {earlier : List Value} {entries : List (Value × Value)}
    (hOnce : (entries.flatMap fun (_, definition) => Streams.actionSources definition).Nodup) :
    Reports s (entries.flatMap fun (_, definition) => Streams.actionSources definition)
      (s.entriesViolations earlier entries)
      (entries.map fun (name, definition) => s.declaration name definition)
      (readDeclarations earlier entries) := by
  induction entries generalizing earlier with
  | nil => exact .pure s _
  | cons entry rest ih =>
    obtain ⟨name, definition⟩ := entry
    rw [List.flatMap_cons, List.nodup_append'] at hOnce
    obtain ⟨hOnceHere, hOnceRest, hApart⟩ := hOnce
    rw [List.flatMap_cons, List.map_cons, s.entriesViolations_cons]
    exact (readDeclaration_reports hOnceHere).bind (fun _ => (ih hOnceRest).map _) hApart

/-- If nothing is wrong with the entries of a table, their names may be names. -/
theorem Streams.hashable_of_entriesViolations {earlier : List Value}
    {entries : List (Value × Value)} (h : s.entriesViolations earlier entries = []) :
    ∀ name ∈ entries.map Prod.fst, name.hashable = true := by
  induction entries generalizing earlier with
  | nil => simp
  | cons entry rest ih =>
    obtain ⟨name, definition⟩ := entry
    rw [s.entriesViolations_cons, List.append_eq_nil_iff] at h
    refine List.forall_mem_cons.mpr ⟨?_, ih h.2⟩
    have hName := (List.append_eq_nil_iff.mp (List.append_eq_nil_iff.mp h.1).1).1
    cases hHash : name.hashable with
    | true => rfl
    | false => simp [nameViolations, violationIf, hHash] at hName

-- ---------------------------------------------------------------------------
-- Reading tables
-- ---------------------------------------------------------------------------

/-- A table has entries if it is a map or a container of pairs. -/
theorem readEntries_reports (table : Value) :
    Reports s table.sources (s.pairViolations (.notTable table.typeName) .notTableEntry table)
      (s.pairs table) (readEntries table) := by
  cases table with
  | map entries => exact .pure s _
  | _ => exact readPairs_reports (fun _ h => by cases h) (Cause.notTable _) Cause.notTableEntry

/-- **Reading a table** reports the first violation, or gives the machine that the table
describes. -/
theorem readTable_reports {self : MachineRef} {table : Value} (h : s.Lists self table) :
    Reports s (s.sources table) (s.violations table) (s.machine self table)
      (readTable self table) := by
  obtain ⟨hOnce, hTargets⟩ := h
  rw [Streams.sources, List.append_assoc, List.nodup_append', List.nodup_append'] at hOnce
  obtain ⟨-, ⟨hOnceEntries, hOnceRules, hApartRules⟩, hApartEntries⟩ := hOnce
  have hViolations : s.violations table =
      s.pairViolations (.notTable table.typeName) .notTableEntry table ++
        (s.entriesViolations [] (s.pairs table) ++
          (s.pairs table).flatMap fun (name, definition) =>
            s.rulesViolations (s.names table) name (definition.field "rules")) := by
    simp [Streams.violations, Streams.entriesViolations, Streams.names]
  rw [Streams.sources, List.append_assoc, hViolations]
  refine (readEntries_reports table).bind (fun _ => ?_) hApartEntries
  refine (readDeclarations_reports hOnceEntries).bind (fun hEntries => ?_) hApartRules
  -- without violations so far all names are keys, and there are as many states as entries
  have hHashable := Streams.hashable_of_entriesViolations hEntries
  have hStates : (Machine.ofDeclarations ((s.pairs table).map fun (name, definition) =>
      s.declaration name definition)).states.map State.name = s.names table := by
    simp [Machine.ofDeclarations, Machine.ofStates, Streams.names, Streams.declaration,
      Function.comp_def]
  have hRules := @readAllRules_reports s _ _ hStates self
    ((s.pairs table).map fun (name, definition) => s.declaration name definition)
    hHashable ?targets ?once
  -- a target that is a State object belongs to an earlier machine, so it stands for no state of
  -- this one
  case targets =>
    intro d hd pair hPair ref hRef
    obtain ⟨⟨name, definition⟩, hEntry, rfl⟩ := List.mem_map.mp hd
    have hTarget : pair.1 ∈ s.targets table :=
      List.mem_flatMap.mpr ⟨_, hEntry, List.mem_map_of_mem hPair⟩
    exact ⟨Nat.ne_of_lt (hTargets _ hTarget ref hRef).1, (hTargets _ hTarget ref hRef).2⟩
  case once =>
    rw [List.flatMap_map]
    exact hOnceRules
  rw [List.flatMap_map, List.flatMap_map] at hRules
  exact hRules.map _

/-- The states of the machine that a table describes. -/
theorem Streams.states_machine (s : Streams) (self : MachineRef) (table : Value) :
    (s.machine self table).states = (s.pairs table).map fun (name, definition) =>
      { name
        onEnter := s.functions (definition.field ActionSlot.onEnter.key)
        body := s.functions (definition.field ActionSlot.body.key)
        onExit := s.functions (definition.field ActionSlot.onExit.key)
        rules := s.rules self (s.names table) (definition.field "rules")
        visits := [] } := by
  simp [machine, Machine.withRules, Machine.ofDeclarations, Machine.ofStates, declaration,
    List.zipWith_map_left, List.zipWith_map_right, List.zipWith_self]

/-- The snapshot of the machine that a table describes. -/
theorem Streams.table_machine (s : Streams) (self : MachineRef) (table : Value) :
    (s.machine self table).table = (s.pairs table).map fun (name, definition) =>
      { name
        rules := (s.pairs (definition.field "rules")).map fun (target, rule) =>
          let place := (placeOf (s.names table) target).getD 0
          ((s.names table)[place]?.getD .null,
            (s.rule { machine := self, index := place } rule).label) } := by
  have hStates : (s.machine self table).states.map State.name = s.names table := by
    rw [states_machine, List.map_map]
    rfl
  have hTarget (target : StateRef) (spec : Value) : (s.rule target spec).target = target := by
    unfold rule
    split <;> rfl
  simp only [Machine.table, Machine.nameOf_eq hStates, states_machine, rules, List.map_map,
    Function.comp_def, hTarget]

/-- What becomes of a world when a machine is built from a table. -/
theorem World.construct_reports {w : World} {table : Value}
    (h : w.streams.Lists w.machines.length table) :
    ∃ streams, w.construct table =
      match w.streams.violations table with
      | [] =>
        let m := w.streams.machine w.machines.length table
        (.ok w.machines.length, ({ w with streams, machines := w.machines ++ [m] }).record
          w.machines.length (.built m.states.length m.ruleCount))
      | first :: _ => (.error first, { w with streams }) := by
  have hOutcome := (readTable_reports h).outcome
  refine ⟨((readTable w.machines.length table).result w.streams).2, ?_⟩
  have hResult := Prod.ext (y := (_, _)) hOutcome rfl
  rw [construct, hResult]
  cases w.streams.violations table <;> rfl

namespace Config

section

variable {handler : Handler} {w : World} {table : Value}
  (h : w.streams.Lists w.machines.length table)
include h

/-- If nothing is wrong with a table, the machine is built that it describes. -/
theorem build_accepts (hNone : w.streams.violations table = []) : ∃ w',
    (begin (Run.build table none) w).Ends handler (.ok w.machines.length) w' ∧
      w'.machines = w.machines ++ [w.streams.machine w.machines.length table] := by
  obtain ⟨streams, hConstruct⟩ := World.construct_reports h
  have hAct : (begin (Run.act (.construct table)) w).Ends handler
      ((w.construct table).1.mapError w.fault) (w.construct table).2 := .of_next rfl
  rw [hNone] at hConstruct
  rw [hConstruct] at hAct
  exact ⟨_, hAct.bind _, rfl⟩

/-- If something is wrong with a table, what comes first is reported. -/
theorem build_rejects {first : Cause} {rest : List Cause}
    (hSome : w.streams.violations table = first :: rest) : ∃ streams : Streams,
    (begin (Run.build table none) w).Ends handler (.error (w.fault first)) { w with streams } := by
  obtain ⟨streams, hConstruct⟩ := World.construct_reports h
  have hAct : (begin (Run.act (.construct table)) w).Ends handler
      ((w.construct table).1.mapError w.fault) (w.construct table).2 := .of_next rfl
  rw [hSome] at hConstruct
  rw [hConstruct] at hAct
  exact ⟨streams, hAct.bind_error _⟩

end

/-- **A table is accepted exactly if nothing is wrong with it.** Then there is one more machine, the
one that it describes. Otherwise the first of all violations is reported, and nothing has changed
but that streams were read. -/
theorem build_reports (handler : Handler) (w : World) (table : Value)
    (h : w.streams.Lists w.machines.length table) :
    let violations := w.streams.violations table
    ((∃ m w', (begin (Run.build table none) w).Ends handler (.ok m) w') ↔ violations = []) ∧
    (violations = [] → ∃ w',
      (begin (Run.build table none) w).Ends handler (.ok w.machines.length) w' ∧
        w'.machines = w.machines ++ [w.streams.machine w.machines.length table]) ∧
    ∀ first rest, violations = first :: rest → ∃ streams : Streams,
      (begin (Run.build table none) w).Ends handler (.error (w.fault first))
        { w with streams } := by
  intro violations
  refine ⟨⟨fun ⟨m, w', hEnds⟩ => ?_, fun hNone => ?_⟩, build_accepts h,
    fun _ _ hSome => build_rejects h hSome⟩
  · -- an execution ends in one way only
    cases hViolations : violations with
    | nil => rfl
    | cons first rest =>
      obtain ⟨streams, hFails⟩ := build_rejects h hViolations
      cases (hEnds.unique hFails).1
  · obtain ⟨w', hEnds, -⟩ := build_accepts h hNone
    exact ⟨_, w', hEnds⟩

/-- What is left of the entries of a table, and of a list of actions in it. -/
def faultyStreams : Streams where
  left :=
    [[.tuple [.text "idle", .map [(.text "rules", .list [.list [.text "gone", .bool true]])]],
        .list [.text "busy", .map [(.text "do", .stream 1)]]],
      [.function "work", .int 3]]

/-- Two things are wrong with a table that a stream yields. It is the second entry that is reported:
a list of actions matters more than a rule. -/
theorem build_reports_faulty :
    let w : World := { World.empty with streams := faultyStreams }
    let first : Cause := .actions (.slot .body (.text "busy")) (.notFunction 1 (.int 3))
    let second : Cause := .unknownState (.text "gone") (some (.text "idle"))
    w.streams.violations (.stream 0) = [first, second] ∧
      (w.fault first).message = "do of state \"busy\" item 1 is not callable: 3" ∧
      ∃ streams, (begin (Run.build (.stream 0) none) w).Ends penniless (.error (w.fault first))
        { w with streams } := by
  intro w first second
  have hViolations : w.streams.violations (.stream 0) = [first, second] := rfl
  have hLists : w.streams.Lists w.machines.length (.stream 0) := by
    refine ⟨by decide +kernel, fun target hTarget ref hRef => ?_⟩
    obtain rfl : target = .text "gone" := List.mem_singleton.mp hTarget
    cases hRef
  obtain ⟨-, -, hReports⟩ := build_reports penniless w (.stream 0) hLists
  exact ⟨hViolations, by decide +kernel, hReports first [second] hViolations⟩

end Config

end RuleMachine
