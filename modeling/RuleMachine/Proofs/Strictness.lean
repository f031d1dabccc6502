import RuleMachine.Proofs.Loosening
import RuleMachine.Proofs.Sessions

/-!
# What strict mode adds

A strict machine asks all predicates where another one asks only up to the first that holds. If
predicates have no side effects and do not fail, asking more of them makes no difference to anything
but the log, and if no choice is ambiguous, the rule that is followed is the same. So the whole run
is the same, whatever actions do: the same answers and failures, and the same world at every moment,
apart from the mode itself and from the evaluations of predicates that are missing in the log.

* `Sparser`: a log from which evaluations are missing.
* `Config.loosensBy`: executions that end.
* `Config.tracks`: every moment of every execution.
* `Session.strict_is_conservative`: sessions.
-/

namespace RuleMachine

-- ---------------------------------------------------------------------------
-- Sparser logs
-- ---------------------------------------------------------------------------

/-- Whether two logs went on alike from `base` and `base'`, except that the second is missing some
stretches that may be spared. -/
inductive Sparser (spare : Array LogEntry → Prop) (base base' : Array LogEntry) :
    Array LogEntry → Array LogEntry → Prop
  | start : Sparser spare base base' base base'
  | append {log log' : Array LogEntry} (h : Sparser spare base base' log log')
    (es : Array LogEntry) : Sparser spare base base' (log ++ es) (log' ++ es)
  | skip {log log' es : Array LogEntry} (h : Sparser spare base base' log log')
    (hSpare : spare es) : Sparser spare base base' (log ++ es) log'

/-- Whether an entry is a record of a machine. -/
def LogEntry.isRecord (entry : LogEntry) : Bool :=
  match entry.event with
  | .record _ _ => true
  | .called _ _ | .performed _ _ => false

namespace Sparser

variable {spare : Array LogEntry → Prop} {base base' log log' : Array LogEntry}

/-- What was logged since the beginning. -/
theorem since (h : Sparser spare base base' log log') :
    ∃ es es', log = base ++ es ∧ log' = base' ++ es' ∧ Sparser spare #[] #[] es es' := by
  induction h with
  | start => exact ⟨#[], #[], by rw [Array.append_empty], by rw [Array.append_empty], .start⟩
  | append _ new ih =>
    obtain ⟨es, es', rfl, rfl, hSince⟩ := ih
    exact ⟨es ++ new, es' ++ new, Array.append_assoc, Array.append_assoc, hSince.append new⟩
  | skip _ hes ih =>
    obtain ⟨es, es', rfl, rfl, hSince⟩ := ih
    exact ⟨_, es', Array.append_assoc, rfl, hSince.skip hes⟩

/-- If no records may be spared, all of them are there. -/
theorem records (h : Sparser spare #[] #[] log log')
    (hSpare : ∀ es, spare es → ∀ entry ∈ es.toList, entry.isRecord = false) :
    log'.toList.filter LogEntry.isRecord = log.toList.filter LogEntry.isRecord := by
  induction h with
  | start => rfl
  | append _ es ih =>
    rw [Array.toList_append, Array.toList_append, List.filter_append, List.filter_append, ih]
  | skip _ hes ih =>
    have hNone := List.filter_eq_nil_iff.mpr fun entry hEntry =>
      Bool.eq_false_iff.mp (hSpare _ hes entry hEntry)
    rw [Array.toList_append, List.filter_append, ih, hNone, List.append_nil]

/-- What is there is in its old order. -/
theorem sublist (h : Sparser spare #[] #[] log log') : log'.toList.Sublist log.toList := by
  induction h with
  | start => exact .refl _
  | append _ es ih =>
    rw [Array.toList_append, Array.toList_append]
    exact ih.append_right _
  | skip _ _ ih =>
    rw [Array.toList_append]
    exact ih.trans (List.sublist_append_left _ _)

end Sparser

/-- Whether entries are stretches that may be spared, one after the other. -/
def Spared (spare : Array LogEntry → Prop) (es : Array LogEntry) : Prop :=
  ∀ {base base' log log' : Array LogEntry}, Sparser spare base base' log log' →
    Sparser spare base base' (log ++ es) log'

namespace Spared

variable {spare : Array LogEntry → Prop} {es es' : Array LogEntry}

theorem empty : Spared spare #[] := fun h => by rwa [Array.append_empty]

theorem of_spare (h : spare es) : Spared spare es := fun hLog => hLog.skip h

theorem append (h : Spared spare es) (h' : Spared spare es') : Spared spare (es ++ es') :=
  fun hLog => by
    rw [← Array.append_assoc]
    exact h' (h hLog)

end Spared

-- ---------------------------------------------------------------------------
-- Predicates without side effects
-- ---------------------------------------------------------------------------

/-- Whether a function, called in a world, answers with a value and changes nothing but the log. -/
def World.Answers (handler : Handler) (w : World) (f : FunctionName) (args : List Value) (v : Value)
    (es : Array LogEntry) : Prop :=
  (Config.begin (Run.call f args) w).Ends handler (.ok v) (w.withLog (w.log ++ es))

/-- Whether all predicates of rules that are functions do so, and what they log may be spared. -/
def World.AnswersAll (handler : Handler) (spare : Array LogEntry → Prop) (w : World)
    (args : List Value) (rules : List Rule) : Prop :=
  ∀ rule ∈ rules, ∀ f, rule.predicate = .function f →
    ∃ v es, spare es ∧ w.Answers handler f args v es

namespace Config

section

variable {α : Type} (c : Config α)

/-- Whether a try to switch is about to read the mode of a machine and to choose a rule. -/
def Chooses (m : MachineRef) (s : StateRef) (rules : List Rule) (inputs : List Value) : Prop :=
  ∃ next, c.program = (ExceptT.run (Run.select m s rules inputs)).bind next

/-- Whether a program is about to fail because more than one rule holds. -/
def Ambiguous : Prop :=
  ∃ (β : Type) (name : Value) (candidates : List Value) (next : Except Fault β → Program α),
    c.program = .perform (.fail (.ambiguous name candidates)) next

/-- Whether no choice is ambiguous, in whatever function. -/
def Unambiguous (handler : Handler) : Prop := ∀ c', c.Leads handler c' → ¬c'.Ambiguous

/-- Whether predicates have no side effects and do not fail: whenever a rule is to be chosen for a
machine, each predicate answers and changes nothing but the log, and no machine adds a record to it.
-/
def AsksQuietly (handler : Handler) (m : MachineRef) : Prop :=
  ∀ c', c.Leads handler c' → ∀ s rules inputs, c'.Chooses m s rules inputs →
    c'.world.AnswersAll handler (fun es => ∀ entry ∈ es.toList, entry.isRecord = false)
      (.state s :: inputs) rules

/-- Whether entries are what the evaluation of one predicate logs, of those that are to be chosen
from at some moment. -/
def Evaluation (handler : Handler) (m : MachineRef) (es : Array LogEntry) : Prop :=
  (∀ entry ∈ es.toList, entry.isRecord = false) ∧
    ∃ c', c.Leads handler c' ∧ ∃ s rules inputs, c'.Chooses m s rules inputs ∧
      ∃ rule ∈ rules, ∃ f v, rule.predicate = .function f ∧
        c'.world.Answers handler f (.state s :: inputs) v es

/-- Whether choices are unambiguous and made by predicates without side effects, what they log being
of a kind that may be spared. -/
structure Tame (handler : Handler) (m : MachineRef) (spare : Array LogEntry → Prop) : Prop where
  asks : ∀ c', c.Leads handler c' → ∀ s rules inputs, c'.Chooses m s rules inputs →
    c'.world.AnswersAll handler spare (.state s :: inputs) rules
  unambiguous : c.Unambiguous handler

end

variable {handler : Handler} {m : MachineRef} {spare : Array LogEntry → Prop} {α β : Type}

theorem Tame.of_leads {c c' : Config α} (h : c.Tame handler m spare) (hLeads : c.Leads handler c') :
    c'.Tame handler m spare :=
  ⟨fun c'' hc'' => h.asks c'' (hLeads.trans hc''),
    fun c'' hc'' => h.unambiguous c'' (hLeads.trans hc'')⟩

/-- A first part is tame if the whole is. -/
theorem Tame.of_andThen {c : Config β} {k : β → Program α}
    (h : (c.andThen k).Tame handler m spare) : c.Tame handler m spare := by
  constructor
  · rintro c' hLeads s rules inputs ⟨next, hChooses⟩
    refine h.asks _ (hLeads.andThen k) s rules inputs ⟨fun r => (next r).bind k, ?_⟩
    rw [andThen, hChooses, Program.bind_assoc]
  · rintro c' hLeads ⟨γ, name, candidates, next, hAmbiguous⟩
    refine h.unambiguous _ (hLeads.andThen k) ⟨γ, name, candidates, fun r => (next r).bind k, ?_⟩
    rw [andThen, hAmbiguous]
    rfl

theorem Tame.of_bind {x : Run β} {f : β → Run α} {w : World}
    (h : (begin (x >>= f) w).Tame handler m spare) : (begin x w).Tame handler m spare := by
  rw [begin, Run.run_bind] at h
  exact Tame.of_andThen (c := begin x w) h

end Config

section

variable {handler : Handler} {spare : Array LogEntry → Prop} {w : World} {args : List Value}

/-- Functions answer the same whatever was logged before. -/
theorem World.Answers.withLog {f : FunctionName} {v : Value} {es : Array LogEntry}
    (h : w.Answers handler f args v es) (log : Array LogEntry) :
    (w.withLog log).Answers handler f args v es := by
  obtain ⟨es', hLog, hOther⟩ := Config.Ends.withLog h
  obtain rfl : es = es' := Array.append_inj_right hLog rfl
  exact hOther log

/-- Whether all predicates answer does not depend on the log. -/
theorem World.AnswersAll.withLog {rules : List Rule} (h : w.AnswersAll handler spare args rules)
    (log : Array LogEntry) : (w.withLog log).AnswersAll handler spare args rules := by
  intro rule hRule f hf
  obtain ⟨v, es, hSpare, hAnswers⟩ := h rule hRule f hf
  exact ⟨v, es, hSpare, hAnswers.withLog log⟩

/-- A predicate without side effects answers, and what it logs may be spared. -/
theorem ends_ask {rules : List Rule} (h : w.AnswersAll handler spare args rules) {rule : Rule}
    (hRule : rule ∈ rules) :
    ∃ v es, (Config.begin (Run.ask rule.predicate args) w).Ends handler (.ok v)
        (w.withLog (w.log ++ es)) ∧ Spared spare es := by
  cases hPredicate : rule.predicate with
  | function f =>
    obtain ⟨v, es, hSpare, hAnswers⟩ := h rule hRule f hPredicate
    exact ⟨v, es, hAnswers, Spared.of_spare hSpare⟩
  | constant v =>
    refine ⟨v, #[], ?_, Spared.empty⟩
    rw [Array.append_empty]
    exact .refl _

/-- So do all of them, one after the other. -/
theorem ends_matching {rules : List Rule} (h : w.AnswersAll handler spare args rules) :
    ∃ ms es, (Config.begin (Run.matching args rules) w).Ends handler (.ok ms)
        (w.withLog (w.log ++ es)) ∧ Spared spare es := by
  induction rules generalizing w with
  | nil =>
    refine ⟨[], #[], ?_, Spared.empty⟩
    rw [Array.append_empty]
    exact .refl _
  | cons rule rest ih =>
    obtain ⟨v, es, hAsk, hSpare⟩ := ends_ask h List.mem_cons_self
    have hRest : (w.withLog (w.log ++ es)).AnswersAll handler spare args rest :=
      World.AnswersAll.withLog (fun other hOther => h other (List.mem_cons_of_mem _ hOther)) _
    obtain ⟨ms, es', hMatching, hSpare'⟩ := ih hRest
    -- the predicate logs what may be spared, and the rest of them do as well
    refine ⟨if v.truthy then rule :: ms else ms, es ++ es', ?_, hSpare.append hSpare'⟩
    rw [← Array.append_assoc]
    exact (hAsk.bind _).trans ((hMatching.bind _).trans (.refl _))

end

-- ---------------------------------------------------------------------------
-- One step
-- ---------------------------------------------------------------------------

namespace Config

variable {handler : Handler} {m : MachineRef} {spare : Array LogEntry → Prop}
  {base base' : Array LogEntry} {α β : Type}

/-- Whether the second of two moments is the first one for a machine that is not strict: the same is
left to do, by a program that uses the mode for choices only, and the worlds differ in the mode and
in what may be spared of the log. -/
structure Relaxed (m : MachineRef) (spare : Array LogEntry → Prop) (base base' : Array LogEntry)
    (c c' : Config α) : Prop where
  program : c'.program = c.program
  unaware : c.program.Unaware m
  built : m < c.world.machines.length
  world : ∃ log, c'.world = c.world.relax m log ∧ Sparser spare base base' c.world.log log

/-- A program that does not look at the mode is relaxed with itself. -/
theorem relaxed {p : Program α} (hUnaware : p.Unaware m) {w : World}
    (hBuilt : m < w.machines.length) {log : Array LogEntry}
    (hLog : Sparser spare base base' w.log log) :
    Relaxed m spare base base' { program := p, world := w }
      { program := p, world := w.relax m log } :=
  ⟨rfl, hUnaware, hBuilt, log, rfl, hLog⟩

/-- **What the next step comes to.** A program has ended, or it is about to choose, or it goes on to
moments that differ as those before. -/
theorem Relaxed.next (hHandler : handler.Unaware m) {c c' : Config α}
    (h : c.Relaxed m spare base base' c') :
    (∃ a, c.program = .ret a) ∨
    (∃ s rules inputs next, c.program = (ExceptT.run (Run.select m s rules inputs)).bind next ∧
      ∀ r, (next r).Unaware m) ∨
    ∃ c₁ c₁', c.next .standard handler = some c₁ ∧ c'.next .standard handler = some c₁' ∧
      c₁.Relaxed m spare base base' c₁' := by
  obtain ⟨p, w⟩ := c
  obtain ⟨p', w'⟩ := c'
  obtain ⟨hProgram, hUnaware, hBuilt, log, hWorld, hLog⟩ := h
  obtain rfl : p' = p := hProgram
  obtain rfl : w' = w.relax m log := hWorld
  -- what does not look at the mode does the same in both worlds, and a choice is set apart
  cases hUnaware with
  | ret a => exact .inl ⟨a, rfl⟩
  | @perform _ β q next hMode hNext =>
    obtain ⟨es, hOwn, hOther⟩ := Primitive.effect_relax hMode hBuilt
    have hLog' : Sparser spare base base' (q.effect w).2.log (log ++ es) := by
      rw [hOwn]
      exact hLog.append es
    refine .inr (.inr ⟨_, _, rfl, rfl, ?_⟩)
    show Relaxed _ _ _ _ _
      { program := next ((q.effect (w.relax m log)).1.mapError (w.relax m log).fault)
        world := (q.effect (w.relax m log)).2 }
    rw [hOther, w.fault_relax]
    exact relaxed (hNext w hBuilt) (Nat.lt_of_lt_of_le hBuilt (q.length_le w)) hLog'
  | call f args hNext =>
    have hLog' : Sparser spare base base' (w.emit (.called f args)).log
        (log.push { event := .called f args, machines := w.bound }) := by
      show Sparser spare base base' (w.log.push _) _
      rw [Array.push_eq_append, Array.push_eq_append]
      exact hLog.append _
    have hRest := Program.Unaware.bind (hHandler f args) hNext
    exact .inr (.inr ⟨_, _, rfl, rfl, relaxed (w := w.emit _) hRest hBuilt hLog'⟩)
  | loop hBody hNext =>
    exact .inr (.inr ⟨_, _, rfl, rfl, relaxed (.unroll hBody hNext) hBuilt hLog⟩)
  | select s rules inputs hNext => exact .inr (.inl ⟨s, rules, inputs, _, rfl, hNext⟩)

/-- What is about to choose goes on to do so in the mode that there is. -/
theorem next_select (handler : Handler) (m : MachineRef) (s : StateRef) (rules : List Rule)
    (inputs : List Value) (next : Except Fault (Option Rule) → Program α) (w : World) :
    ((begin (Run.select m s rules inputs) w).andThen next).next .standard handler =
      some ((begin (Run.choose s rules (w.machine m).strict inputs) w).andThen next) :=
  next_andThen next (next_act rfl _)

/-- A relaxed machine is not strict. -/
theorem strict_relax {w : World} (hBuilt : m < w.machines.length) (log : Array LogEntry) :
    ((w.relax m log).machine m).strict = false := by
  show ((w.loosen m).machine m).strict = false
  rw [World.loosen, World.machine_modifyMachine_self _ hBuilt]
  rfl

-- ---------------------------------------------------------------------------
-- Executions that end
-- ---------------------------------------------------------------------------

/-- Whether what ends within a number of steps comes to the same if the machine is not strict. -/
def LoosensBy (handler : Handler) (m : MachineRef) (spare : Array LogEntry → Prop)
    (base base' : Array LogEntry) (n : Nat) : Prop :=
  ∀ {α : Type} {c c' : Config α} {v : World} {a : α}, c.Relaxed m spare base base' c' →
    c.Tame handler m spare → c.EndsBy handler n a v →
    ∃ log, Sparser spare base base' v.log log ∧ c'.EndsBy handler n a (v.relax m log)

/-- The first rule that holds is the first of all rules that hold. -/
theorem LoosensBy.firstMatch {n : Nat} (h : ∀ i ≤ n, LoosensBy handler m spare base base' i)
    {w v : World} {args : List Value} {rules : List Rule} {log : Array LogEntry}
    {r : Except Fault (List Rule)} (hBuilt : m < w.machines.length)
    (hAll : w.AnswersAll handler spare args rules)
    (hTame : (begin (Run.matching args rules) w).Tame handler m spare)
    (hLog : Sparser spare base base' w.log log) {i : Nat} (hi : i ≤ n)
    (hEnds : (begin (Run.matching args rules) w).EndsBy handler i r v) :
    ∃ ms log', r = .ok ms ∧ Sparser spare base base' v.log log' ∧
      (begin (Run.firstMatch args rules) (w.relax m log)).EndsBy handler i (.ok ms.head?)
        (v.relax m log') := by
  induction rules generalizing w log i r v with
  | nil =>
    obtain ⟨rfl, rfl⟩ := EndsBy.of_ret hEnds
    exact ⟨[], log, rfl, hLog, endsBy_ret⟩
  | cons rule rest ih =>
    obtain ⟨a, es, hAsk, hSpared⟩ := ends_ask hAll List.mem_cons_self
    have hRest : (w.withLog (w.log ++ es)).AnswersAll handler spare args rest :=
      World.AnswersAll.withLog (fun other hOther => hAll other (List.mem_cons_of_mem _ hOther)) _
    obtain ⟨ms, es', hMatching, hSpared'⟩ := ends_matching hRest
    -- all predicates answer, so neither this one fails nor those after it
    rcases hEnds.of_bind with ⟨j, -, fault, hFails, -⟩ | ⟨j, hj, b, w₁, hAsked, hThen⟩
    · cases (hAsk.unique hFails.ends).1
    obtain ⟨hSame, rfl⟩ := hAsk.unique hAsked.ends
    cases hSame
    rcases hThen.of_bind with ⟨k, -, fault, hFails, -⟩ | ⟨k, hk, others, w₂, hMatched, hThen⟩
    · cases (hMatching.unique hFails.ends).1
    obtain ⟨hSame, rfl⟩ := hMatching.unique hMatched.ends
    cases hSame
    obtain ⟨rfl, rfl⟩ := EndsBy.of_ret hThen
    obtain ⟨log₁, hLog₁, hAsked'⟩ := h j (Nat.le_trans hj hi)
      (relaxed (Run.ask_unaware rule.predicate args) hBuilt hLog) hTame.of_bind hAsked
    cases hTruthy : a.truthy with
    | true =>
      -- one search ends here, and what the other one still asks may be spared
      refine ⟨rule :: ms, log₁, by rw [if_pos rfl], hSpared' hLog₁, ?_⟩
      refine EndsBy.bind hAsked' ?_ (Nat.add_le_of_le_sub' hj (Nat.zero_le _))
      rw [hTruthy]
      exact endsBy_ret
    | false =>
      have hTame' := (hTame.of_leads (hAsk.bind _)).of_bind
      obtain ⟨ms', log₂, hSame, hLog₂, hMatched'⟩ :=
        ih (w := w.withLog (w.log ++ es)) hBuilt hRest hTame' hLog₁ (by omega) hMatched
      obtain rfl := Except.ok.inj hSame
      refine ⟨ms, log₂, rfl, hLog₂, ?_⟩
      refine EndsBy.bind hAsked' ?_ (Nat.add_le_of_le_sub' hj hk)
      rw [hTruthy]
      exact hMatched'

/-- States have names, which can be looked up. -/
theorem ends_namesOf (handler : Handler) (ss : List StateRef) (w : World) :
    ∃ names, (begin (Run.namesOf ss) w).Ends handler (.ok names) w := by
  induction ss with
  | nil => exact ⟨[], .refl _⟩
  | cons s rest ih =>
    obtain ⟨names, hNames⟩ := ih
    have hName : (begin (Run.look (.name s)) w).Ends handler (.ok (w.state s).name) w :=
      .of_next rfl
    exact ⟨_, (hName.bind _).trans ((hNames.bind _).trans (.refl _))⟩

/-- A choice that is not ambiguous comes to the same in both modes. -/
theorem LoosensBy.choose {n : Nat} (h : ∀ i ≤ n, LoosensBy handler m spare base base' i)
    {w v : World} {s : StateRef} {rules : List Rule} {inputs : List Value} {log : Array LogEntry}
    {r : Except Fault (Option Rule)} (hBuilt : m < w.machines.length)
    (hAll : w.AnswersAll handler spare (.state s :: inputs) rules)
    (hTame : (begin (Run.choose s rules true inputs) w).Tame handler m spare)
    (hLog : Sparser spare base base' w.log log)
    (hEnds : (begin (Run.choose s rules true inputs) w).EndsBy handler n r v) :
    ∃ log', Sparser spare base base' v.log log' ∧
      (begin (Run.choose s rules false inputs) (w.relax m log)).EndsBy handler n r
        (v.relax m log') := by
  have hMatching : (begin (Run.matching (.state s :: inputs) rules) w).Tame handler m spare :=
    Tame.of_bind hTame
  rcases EndsBy.of_bind (x := Run.matching (.state s :: inputs) rules) hEnds with
    ⟨i, hi, fault, hFails, rfl⟩ | ⟨i, hi, ms, w₁, hMatched, hThen⟩
  · obtain ⟨ms, -, hSame, -⟩ := LoosensBy.firstMatch h hBuilt hAll hMatching hLog hi hFails
    cases hSame
  · obtain ⟨ms', log', hSame, hLog', hFirst⟩ :=
      LoosensBy.firstMatch h hBuilt hAll hMatching hLog hi hMatched
    obtain rfl := Except.ok.inj hSame
    rcases ms with _ | ⟨rule, _ | ⟨other, rest⟩⟩
    · obtain ⟨rfl, rfl⟩ := EndsBy.of_ret hThen
      exact ⟨log', hLog', hFirst.mono hi⟩
    · obtain ⟨rfl, rfl⟩ := EndsBy.of_ret hThen
      exact ⟨log', hLog', hFirst.mono hi⟩
    · -- two rules that hold make the choice ambiguous
      obtain ⟨candidates, hNames⟩ :=
        ends_namesOf handler ((rule :: other :: rest).map Rule.target) w₁
      have hName : (begin (Run.look (.name s)) w₁).Ends handler (.ok (w₁.state s).name) w₁ :=
        .of_next rfl
      have hLeads : (begin (Run.choose s rules true inputs) w).Leads handler
          (begin (Run.fail (.ambiguous (w₁.state s).name candidates)) w₁) :=
        (hMatched.ends.bind _).trans ((hName.bind _).trans (hNames.bind _))
      exact absurd ⟨_, _, _, _, rfl⟩ (hTame.unambiguous _ hLeads)

/-- What begins with a choice comes to the same if it is made without strictness. -/
theorem LoosensBy.choose_andThen {n : Nat} (h : ∀ i ≤ n, LoosensBy handler m spare base base' i)
    {w v : World} {s : StateRef} {rules : List Rule} {inputs : List Value}
    {next : Except Fault (Option Rule) → Program α} {a : α} {log : Array LogEntry}
    (hBuilt : m < w.machines.length) (hNext : ∀ r, (next r).Unaware m)
    (hTame : ((begin (Run.select m s rules inputs) w).andThen next).Tame handler m spare)
    (hLog : Sparser spare base base' w.log log)
    (hEnds : ((begin (Run.choose s rules (w.machine m).strict inputs) w).andThen next).EndsBy
      handler n a v) :
    ∃ log', Sparser spare base base' v.log log' ∧
      ((begin (Run.choose s rules false inputs) (w.relax m log)).andThen next).EndsBy handler n a
        (v.relax m log') := by
  have hAll := hTame.asks _ (.refl _) s rules inputs ⟨next, rfl⟩
  have hChoosing := hTame.of_leads (.of_next (next_select handler m s rules inputs next w))
  cases hStrict : (w.machine m).strict with
  | false =>
    -- a machine that is not strict does the same anyway
    rw [hStrict] at hEnds hChoosing
    have hChoose := Run.choose_unaware (m := m) s rules false inputs
    exact h n (Nat.le_refl n) (relaxed (Program.Unaware.bind hChoose hNext) hBuilt hLog) hChoosing
      hEnds
  | true =>
    rw [hStrict] at hEnds hChoosing
    obtain ⟨i, hi, r, w₁, hChosen, hThen⟩ := EndsBy.of_andThen hEnds
    obtain ⟨log₁, hLog₁, hChosen'⟩ := LoosensBy.choose (fun j hj => h j (Nat.le_trans hj hi)) hBuilt
      hAll hChoosing.of_andThen hLog hChosen
    have hBuilt₁ : m < w₁.machines.length := Nat.lt_of_lt_of_le hBuilt hChosen.ends.length_le
    obtain ⟨log', hLog', hThen'⟩ := h (n - i) (Nat.sub_le n i)
      (relaxed (hNext r) hBuilt₁ hLog₁) (hChoosing.of_leads (hChosen.ends.andThen next)) hThen
    exact ⟨log', hLog', EndsBy.andThen hChosen' hThen' (by omega)⟩

/-- **What ends comes to the same if the machine is not strict.** -/
theorem loosensBy (hHandler : handler.Unaware m) (n : Nat) :
    LoosensBy handler m spare base base' n := by
  induction n using Nat.strongRecOn with
  | ind n ih =>
    intro α c c' v a hRelaxed hTame hEnds
    obtain ⟨p, w⟩ := c
    obtain ⟨p', w'⟩ := c'
    obtain ⟨hProgram, -, hBuilt, log, hWorld, hLog⟩ := id hRelaxed
    obtain rfl : p' = p := hProgram
    obtain rfl : w' = w.relax m log := hWorld
    -- it has ended, it is about to choose, or it takes a step that both take
    rcases hRelaxed.next hHandler with
      ⟨b, rfl⟩ | ⟨s, rules, inputs, next, rfl, hNext⟩ | ⟨c₁, c₁', hStep, hStep', hRelaxed₁⟩
    · obtain ⟨rfl, rfl⟩ := hEnds.of_ret
      exact ⟨log, hLog, endsBy_ret⟩
    · cases n with
      | zero => cases hEnds
      | succ n =>
        have hStep := next_select handler m s rules inputs next
        have hLoose := hStep (w.relax m log)
        rw [strict_relax hBuilt] at hLoose
        obtain ⟨log', hLog', hEnds'⟩ := LoosensBy.choose_andThen
          (fun i hi => ih i (Nat.lt_succ_of_le hi)) hBuilt hNext hTame hLog
          ((after_succ_of_next (hStep w) n).symm.trans hEnds)
        exact ⟨log', hLog', (after_succ_of_next hLoose n).trans hEnds'⟩
    · cases n with
      | zero =>
        rw [EndsBy, after] at hEnds
        rw [hEnds] at hStep
        cases hStep
      | succ n =>
        rw [EndsBy, after_succ_of_next hStep] at hEnds
        obtain ⟨log', hLog', hEnds'⟩ :=
          ih n (Nat.lt_succ_self n) hRelaxed₁ (hTame.of_leads (.of_next hStep)) hEnds
        exact ⟨log', hLog', (after_succ_of_next hStep' n).trans hEnds'⟩

-- ---------------------------------------------------------------------------
-- Every moment
-- ---------------------------------------------------------------------------

/-- Whether a choice begins at a moment that is not over after some steps. -/
def ChoosesFor (handler : Handler) (m : MachineRef) (n : Nat) (c : Config α) : Prop :=
  ∃ s rules inputs next, c.program = (ExceptT.run (Run.select m s rules inputs)).bind next ∧
    ((begin (Run.select m s rules inputs) c.world).after .standard handler n).answer? = none

/-- Whether the first of two executions, after some steps, is where the second one comes to as well,
or in the middle of a choice that began there. -/
def Tracks (handler : Handler) (m : MachineRef) (spare : Array LogEntry → Prop)
    (base base' : Array LogEntry) (n : Nat) (c c' : Config α) : Prop :=
  ∃ i ≤ n, ∃ j, (c.after .standard handler i).Relaxed m spare base base'
      (c'.after .standard handler j) ∧
    (i = n ∨ (c.after .standard handler i).ChoosesFor handler m (n - i))

/-- To track an execution from a later moment is to track it from here. -/
theorem Tracks.of_after {c c' : Config α} {i j n : Nat} (hi : i ≤ n)
    (h : Tracks handler m spare base base' (n - i) (c.after .standard handler i)
      (c'.after .standard handler j)) : Tracks handler m spare base base' n c c' := by
  obtain ⟨k, hk, l, hRelaxed, hWhere⟩ := h
  rw [← after_add, ← after_add] at hRelaxed
  rw [← after_add] at hWhere
  refine ⟨i + k, by omega, j + l, hRelaxed, hWhere.imp (by omega) fun hChooses => ?_⟩
  rwa [Nat.sub_sub] at hChooses

/-- When a choice is over, both executions have gone on from what it came to. -/
theorem relaxed_after_select (hHandler : handler.Unaware m) {n : Nat} {w : World} {s : StateRef}
    {rules : List Rule} {inputs : List Value} {next : Except Fault (Option Rule) → Program α}
    {r : Except Fault (Option Rule)} {log : Array LogEntry} (hBuilt : m < w.machines.length)
    (hNext : ∀ r, (next r).Unaware m) (hLog : Sparser spare base base' w.log log)
    (hTame : ((begin (Run.select m s rules inputs) w).andThen next).Tame handler m spare)
    (hAnswer : ((begin (Run.select m s rules inputs) w).after .standard handler (n + 1)).answer? =
      some r) :
    ∃ i ≤ n, ∃ j,
      (((begin (Run.select m s rules inputs) w).andThen next).after .standard handler
        (i + 1)).Relaxed
        m spare base base'
        (((begin (Run.select m s rules inputs) (w.relax m log)).andThen next).after .standard
          handler
          j) := by
  obtain ⟨w₁, hChosen⟩ :
      ∃ w₁, (begin (Run.select m s rules inputs) w).EndsBy handler (n + 1) r w₁ :=
    ⟨_, congrArg (Config.mk · _) (program_of_answer? hAnswer)⟩
  have hBuilt₁ : m < w₁.machines.length := Nat.lt_of_lt_of_le hBuilt hChosen.ends.length_le
  obtain ⟨log₁, hLog₁, hChosen'⟩ := loosensBy hHandler (n + 1)
    (relaxed (Run.unaware_select s rules inputs) hBuilt hLog) hTame.of_andThen hChosen
  obtain ⟨j, -, hAfter'⟩ :=
    after_andThen (begin (Run.select m s rules inputs) (w.relax m log)) next (n + 1)
  -- the first step of the choice is to look up the mode
  have hStep := next_select handler m s rules inputs next w
  have hFirst : (begin (Run.select m s rules inputs) w).next .standard handler =
      some (begin (Run.choose s rules (w.machine m).strict inputs) w) := next_act rfl _
  rw [EndsBy, after_succ_of_next hFirst] at hChosen
  obtain ⟨i, hi, hAfter⟩ :=
    after_andThen (begin (Run.choose s rules (w.machine m).strict inputs) w) next n
  rw [hChosen, ← after_succ_of_next hStep] at hAfter
  refine ⟨i, hi, j, ?_⟩
  rw [hAfter, hAfter', hChosen']
  exact relaxed (hNext r) hBuilt₁ hLog₁

/-- **At every moment the two executions stand at the same point,** or the first one is still asking
predicates. -/
theorem tracks (hHandler : handler.Unaware m) (n : Nat) {c c' : Config α}
    (hRelaxed : c.Relaxed m spare base base' c') (hTame : c.Tame handler m spare) :
    Tracks handler m spare base base' n c c' := by
  induction n using Nat.strongRecOn generalizing c c' with
  | ind n ih =>
    cases n with
    | zero => exact ⟨0, Nat.le_refl 0, 0, hRelaxed, .inl rfl⟩
    | succ n =>
      rcases hRelaxed.next hHandler with
        ⟨a, hRet⟩ | ⟨s, rules, inputs, next, hSelect, hNext⟩ | ⟨c₁, c₁', hStep, hStep', hRelaxed₁⟩
      · have hStays : c.after .standard handler (n + 1) = c := by
          obtain ⟨p, w⟩ := c
          obtain rfl : p = .ret a := hRet
          exact after_ret a w _
        refine ⟨n + 1, Nat.le_refl _, 0, ?_, .inl rfl⟩
        rw [hStays]
        exact hRelaxed
      · obtain ⟨p, w⟩ := c
        obtain ⟨p', w'⟩ := c'
        obtain ⟨hProgram, -, hBuilt, log, hWorld, hLog⟩ := id hRelaxed
        obtain rfl : p' = p := hProgram
        obtain rfl : w' = w.relax m log := hWorld
        obtain rfl : p' = (ExceptT.run (Run.select m s rules inputs)).bind next := hSelect
        -- a choice that is still under way is waited for, one that is done is a moment to meet at
        cases hAnswer :
            ((begin (Run.select m s rules inputs) w).after .standard handler (n + 1)).answer? with
        | none => exact ⟨0, Nat.zero_le _, 0, hRelaxed, .inr ⟨s, rules, inputs, next, rfl, hAnswer⟩⟩
        | some r =>
          obtain ⟨i, hi, j, hRelaxed₁⟩ :=
            relaxed_after_select hHandler hBuilt hNext hLog hTame hAnswer
          exact .of_after (Nat.succ_le_succ hi)
            (ih _ (by omega) hRelaxed₁ (hTame.of_leads ⟨i + 1, rfl⟩))
      · refine .of_after (i := 1) (j := 1) (by omega) ?_
        rw [after_succ_of_next hStep, after_succ_of_next hStep']
        exact ih n (Nat.lt_succ_self n) hRelaxed₁ (hTame.of_leads (.of_next hStep))

end Config

-- ---------------------------------------------------------------------------
-- Sessions
-- ---------------------------------------------------------------------------

/-- Whether a step of a session is what another one is if a machine is not strict. It has the same
outcome and leaves behind the same world, apart from the mode and the log. It adds the same to the
log, except for stretches that may be spared: all records, and function calls in the same order. -/
structure Step.Relaxed (m : MachineRef) (spare : Array LogEntry → Prop) (s s' : Step) : Prop where
  outcome : s'.outcome = s.outcome
  world : s'.world = s.world.relax m s'.world.log
  log : Sparser spare #[] #[] s.log s'.log
  records : s'.log.toList.filter LogEntry.isRecord = s.log.toList.filter LogEntry.isRecord
  sublist : s'.log.toList.Sublist s.log.toList

namespace Session

variable {functions : Functions} {limit : Nat} {m : MachineRef} {spare : Array LogEntry → Prop}
  {w : World} {i : Instruction} {script : List Instruction}

/-- One instruction comes to the same in both modes. -/
theorem step_relaxed (hHandler : functions.handler.Unaware m) (hMode : i.isAboutMode = false)
    (hBuilt : m < w.machines.length)
    (hSpare : ∀ es, spare es → ∀ entry ∈ es.toList, entry.isRecord = false)
    (hTame : (Config.begin (Run.perform .outermost i) w).Tame functions.handler m spare)
    {s : Step} (h : step functions limit w i = some s) (log : Array LogEntry) :
    ∃ s', step functions limit (w.relax m log) i = some s' ∧ s.Relaxed m spare s' := by
  obtain ⟨hEnds, hLog⟩ := step_endsBy h
  obtain ⟨log', hSparser, hEnds'⟩ := Config.loosensBy hHandler limit
    (Config.relaxed (Run.perform_unaware .outermost hMode) hBuilt .start) hTame hEnds
  obtain ⟨es, es', hSince, rfl, hAdded⟩ := hSparser.since
  -- the records of a step are what was logged since it began
  have hOld : s.log = es := by
    rw [hLog, hSince]
    simp
  have hNew : (log ++ es').extract log.size = es' := by simp
  rw [← hOld, ← hNew] at hAdded
  exact ⟨_, step_of_endsBy hEnds', rfl, rfl, hAdded, hAdded.records hSpare, hAdded.sublist⟩

/-- So do all instructions of a session. -/
theorem runFrom_relaxed (hHandler : functions.handler.Unaware m)
    (hScript : ∀ i ∈ script, i.isAboutMode = false) (hBuilt : m < w.machines.length)
    (hSpare : ∀ es, spare es → ∀ entry ∈ es.toList, entry.isRecord = false)
    (hTame : ({ program := program script, world := w } : Config _).Tame functions.handler m spare)
    {steps : List Step} (h : runFrom functions limit w script = some steps)
    (log : Array LogEntry) :
    ∃ steps', runFrom functions limit (w.relax m log) script = some steps' ∧
      List.Forall₂ (Step.Relaxed m spare) steps steps' := by
  induction script generalizing w steps log with
  | nil =>
    obtain rfl := Option.some.inj h
    exact ⟨[], rfl, .nil⟩
  | cons i rest ih =>
    obtain ⟨first, others, hFirst, hOthers, rfl⟩ := runFrom_cons h
    obtain ⟨hMode, hRest⟩ := List.forall_mem_cons.mp hScript
    have hEnds := step_ends hFirst
    have hTame₁ := Config.Tame.of_andThen (c := .begin (Run.perform .outermost i) w) hTame
    have hTame₂ := Config.Tame.of_andThen (c := ⟨program rest, first.world⟩)
      (hTame.of_leads (hEnds.andThen _))
    -- the first instruction by itself, and the rest from the two worlds it left
    obtain ⟨first', hFirst', hRelaxed⟩ :=
      step_relaxed hHandler hMode hBuilt hSpare hTame₁ hFirst log
    obtain ⟨others', hOthers', hRelaxed'⟩ :=
      ih hRest (Nat.lt_of_lt_of_le hBuilt hEnds.length_le) hTame₂ hOthers first'.world.log
    rw [← hRelaxed.world] at hOthers'
    exact ⟨first' :: others', runFrom_of_cons hFirst' hOthers', .cons hRelaxed hRelaxed'⟩

/-- **A session in which no choice is ambiguous is the same if the machine is not strict.** No
instruction is about the mode, predicates have no side effects and do not fail whenever a rule of
the machine is to be chosen, and no choice is ambiguous, whichever function makes it. Then every
instruction of the session with a strict machine has the same outcome and leaves behind the same
world in the session with one that is not, apart from the mode and the log. The same records are
added to the log and the same functions are called in the same order, except for some evaluations of
predicates, which are missing. And while the first session lasts, be it for ever, it stands at every
moment where the second one comes to as well, or is asking predicates. -/
theorem strict_is_conservative (hFunctions : ∀ name, ∀ i ∈ (functions name).body,
      i.isAboutMode = false)
    (hScript : ∀ i ∈ script, i.isAboutMode = false) (hBuilt : m < w.machines.length)
    (hQuiet : ({ program := program script, world := w } : Config _).AsksQuietly
      functions.handler m)
    (hClear : ({ program := program script, world := w } : Config _).Unambiguous
      functions.handler) :
    let strict : Config _ := { program := program script, world := w }
    let loose : Config _ := { program := program script, world := w.loosen m }
    let spare := strict.Evaluation functions.handler m
    (∀ limit steps, runFrom functions limit w script = some steps →
      ∃ steps', runFrom functions limit (w.loosen m) script = some steps' ∧
        List.Forall₂ (Step.Relaxed m spare) steps steps') ∧
    ∀ n, strict.Tracks functions.handler m spare w.log w.log n loose := by
  intro strict loose spare
  have hHandler := Functions.handler_unaware (m := m) hFunctions
  -- what may be spared is the evaluation of a predicate that the strict mode asks
  have hTame : strict.Tame functions.handler m spare := by
    refine ⟨fun c hLeads s rules inputs hChooses rule hRule f hf => ?_, hClear⟩
    obtain ⟨v, es, hSilent, hAnswers⟩ := hQuiet c hLeads s rules inputs hChooses rule hRule f hf
    exact ⟨v, es, ⟨hSilent, c, hLeads, s, rules, inputs, hChooses, rule, hRule, f, v, hf, hAnswers⟩,
      hAnswers⟩
  refine ⟨fun limit steps h => ?_, fun n => ?_⟩
  · exact runFrom_relaxed hHandler hScript hBuilt (fun es h => h.1) hTame h w.log
  · exact Config.tracks hHandler n
      (Config.relaxed (program_unaware hScript) hBuilt .start) hTame

end Session

-- ---------------------------------------------------------------------------
-- Functions that are constant
-- ---------------------------------------------------------------------------

/-- Whether a function does nothing and always returns the same. -/
def Function.isConstant (f : Function) : Bool :=
  match f with
  | { body := [], result := .constant _ } => true
  | _ => false

/-- Whether a primitive is the failure of a choice with more than one rule. -/
def Primitive.isAmbiguous {β : Type} (p : Primitive β) : Bool :=
  match p with
  | .fail (.ambiguous _ _) => true
  | _ => false

namespace Config

variable {functions : Functions} {m : MachineRef} {α : Type}

/-- The call with which the next step begins, if it is one. -/
def call? (c : Config α) : Option (FunctionName × List Value) :=
  match c.program with
  | .call f args _ => some (f, args)
  | _ => none

/-- Whether the next step is not to fail in an ambiguous choice, and calls with a given number of
arguments none but constant functions. If it is to read the mode of a machine, the machine is
strict, and what is called right after it gets so many arguments. -/
def asksConstants (functions : Functions) (arity : Nat) (m : MachineRef) (c : Config α) : Bool :=
  (c.call?.all fun call => call.2.length != arity || (functions call.1).isConstant) &&
    match c.program with
    | .perform p _ =>
      !p.isAmbiguous && (p.ignoresMode m || (c.world.machine m).strict &&
        (c.next .standard functions.handler).all fun c' =>
          c'.call?.all fun call => call.2.length == arity)
    | _ => true

/-- A constant function answers at once. -/
theorem next_constant {f : FunctionName} (h : (functions f).isConstant = true) :
    ∃ v, ∀ {α : Type} (args : List Value) (next : Except Fault Value → Program α) (w : World),
      ({ program := .call f args next, world := w } : Config α).next .standard functions.handler =
        some { program := next (.ok v), world := w.emit (.called f args) } := by
  unfold Function.isConstant at h
  split at h
  · rename_i v hConstant
    refine ⟨v, fun args next w => ?_⟩
    simp only [Config.next, Functions.handler, hConstant]
    rfl
  · cases h

/-- If only constant functions are called, all predicates answer. -/
theorem answersAll_of_calls {arity : Nat} {c₀ : Config α}
    (hCalls : ∀ c f args, c₀.Leads functions.handler c → c.call? = some (f, args) →
      args.length = arity → (functions f).isConstant = true)
    {args : List Value} {rules : List Rule} {next : Except Fault (List Rule) → Program α}
    {c : Config α} (hLeads : c₀.Leads functions.handler c)
    (hProgram : c.program = (ExceptT.run (Run.matching args rules)).bind next)
    (hArity : ∀ f, c.call? = some (f, args) → args.length = arity) :
    c.world.AnswersAll functions.handler
      (fun es => ∀ entry ∈ es.toList, entry.isRecord = false) args rules := by
  induction rules generalizing c next with
  | nil => exact fun rule hRule => absurd hRule List.not_mem_nil
  | cons rule rest ih =>
    let add (v : Value) : Run (List Rule) := do
      let others ← Run.matching args rest
      return if v.truthy then rule :: others else others
    have hMatching : Run.matching args (rule :: rest) = Run.ask rule.predicate args >>= add := rfl
    have hRest (v : Value) : ∃ next', (ExceptT.run (add v)).bind next =
        (ExceptT.run (Run.matching args rest)).bind next' := by
      rw [Run.run_bind, Program.bind_assoc]
      exact ⟨_, rfl⟩
    rw [hMatching] at hProgram
    -- a constant is no call, and the next rule is asked in the same configuration
    cases hPredicate : rule.predicate with
    | constant v =>
      rw [hPredicate] at hProgram
      obtain ⟨next', hNext'⟩ := hRest v
      have hOthers := ih hLeads (hProgram.trans hNext') hArity
      intro other hOther f hf
      rcases List.mem_cons.mp hOther with rfl | hOther
      · rw [hPredicate] at hf
        cases hf
      · exact hOthers other hOther f hf
    | function f =>
      rw [hPredicate, Run.run_bind, Program.bind_assoc] at hProgram
      obtain ⟨p, w⟩ := c
      obtain rfl : p = .call f args _ := hProgram
      have hLength := hArity f rfl
      obtain ⟨v, hConstant⟩ := next_constant (hCalls _ f args hLeads rfl hLength)
      obtain ⟨next', hNext'⟩ := hRest v
      have hOthers := ih (hLeads.trans (.of_next (hConstant args _ w))) hNext' fun _ _ => hLength
      have hAnswers : w.Answers functions.handler f args v
          #[{ event := .called f args, machines := w.bound }] := .of_next (hConstant args _ w)
      intro other hOther g hg
      rcases List.mem_cons.mp hOther with rfl | hOther
      · obtain rfl := Predicate.function.inj (hPredicate.symm.trans hg)
        refine ⟨v, _, fun entry hEntry => ?_, hAnswers⟩
        obtain rfl := List.mem_singleton.mp hEntry
        rfl
      · exact World.AnswersAll.withLog hOthers w.log other hOther g hg

/-- Predicates have no side effects if they are constant functions and all others are called with
other numbers of arguments. It is enough to look at the moments up to the end. -/
theorem asksQuietly_of_le {c : Config α} (arity last : Nat)
    (hEnd : (c.after .standard functions.handler last).answer?.isSome = true)
    (h : ∀ n ≤ last,
      (c.after .standard functions.handler n).asksConstants functions arity m = true) :
    c.AsksQuietly functions.handler m ∧ c.Unambiguous functions.handler := by
  -- after the last step nothing happens any more, so finitely many moments are enough
  have hAll : ∀ c', c.Leads functions.handler c' → c'.asksConstants functions arity m = true := by
    rintro _ ⟨n, rfl⟩
    rcases Nat.le_total n last with hLe | hLe
    · exact h n hLe
    · rw [after_of_ended hEnd hLe]
      exact h last (Nat.le_refl last)
  refine ⟨?_, ?_⟩
  · rintro c' hLeads s rules inputs ⟨next, hProgram⟩
    have hAsks := hAll c' hLeads
    obtain ⟨p, w⟩ := c'
    obtain rfl : p = .perform (.look (.strict m)) _ := hProgram
    have hIgnores : (Primitive.look (.strict m)).ignoresMode m = false := bne_self_eq_false m
    simp only [asksConstants, hIgnores, Bool.false_or, Bool.and_eq_true] at hAsks
    obtain ⟨-, -, hStrict, hArity⟩ := hAsks
    have hStep : Config.next .standard functions.handler _ = some _ :=
      next_select functions.handler m s rules inputs next w
    have hArity₁ := (Option.all_eq_true _ _).mp hArity _ hStep
    rw [hStrict] at hStep hArity₁
    have hMatching : ∃ next', (ExceptT.run (Run.choose s rules true inputs)).bind next =
        (ExceptT.run (Run.matching (.state s :: inputs) rules)).bind next' := by
      rw [show Run.choose s rules true inputs = Run.matching (.state s :: inputs) rules >>= _ from
        rfl, Run.run_bind, Program.bind_assoc]
      exact ⟨_, rfl⟩
    obtain ⟨next', hProgram⟩ := hMatching
    have hLeads₁ := hLeads.trans (.of_next hStep)
    have hCalls : ∀ c₁ f args, c.Leads functions.handler c₁ → c₁.call? = some (f, args) →
        args.length = arity → (functions f).isConstant = true := by
      intro c₁ f args hLeads hCall hLength
      have hAsks := hAll c₁ hLeads
      simpa [asksConstants, hCall, hLength] using (Bool.and_eq_true_iff.mp hAsks).1
    have hAnswers := answersAll_of_calls hCalls hLeads₁ hProgram fun f hCall => by
      rw [hCall] at hArity₁
      exact eq_of_beq hArity₁
    exact hAnswers
  · rintro c' hLeads ⟨β, name, candidates, next, hProgram⟩
    have hAsks := hAll c' hLeads
    obtain ⟨p, w⟩ := c'
    obtain rfl : p = _ := hProgram
    simp [asksConstants, Primitive.isAmbiguous] at hAsks

end Config

-- ---------------------------------------------------------------------------
-- A strict turnstile
-- ---------------------------------------------------------------------------

namespace Session

/-- A turnstile that opens when it is paid for and locks again after somebody has passed. -/
def turnstile : Value :=
  .map
    [(.text "locked", .map [(.text "rules", .map
        [(.text "open", .function "yes"), (.text "locked", .function "no")])]),
      (.text "open", .map [(.text "do", .function "pass"), (.text "rules", .map
        [(.text "locked", .function "yes"), (.text "open", .function "no")])])]

/-- Whoever passes makes the turnstile switch from within its own state. -/
def passing : Functions
  | "yes" => { body := [], result := .constant (.bool true) }
  | "no" => { body := [], result := .constant (.bool false) }
  | "pass" =>
    { body := [.plain (some "m") (.onMachine (.trySwitch [.constant (.text "passed")]))]
      result := .constant .null }
  | _ => .empty

/-- To build a strict turnstile. -/
def installing : Instruction :=
  .plain (some "m") (.build (.constant turnstile)
    (some { start := none, done := none, strict := some (.constant (.bool true)) }))

/-- What comes of building the turnstile. -/
def installed : World := lastWorld .empty (stepsOf passing .empty [installing])

/-- To start, to switch for somebody who pays, and to look at where the turnstile stands. -/
def pays : List Instruction :=
  [.start, .switch [.constant (.text "paid")], .currentState].map fun command =>
    .plain (some "m") (.onMachine command)

/-- Somebody pays and passes. A strict turnstile asks four predicates, one that is not strict asks
only the two that hold, and nothing else is different. -/
theorem strict_turnstile :
    let logSizes (steps : List Step) : List Nat := steps.map fun s => s.log.size
    let strict : Config _ := { program := program pays, world := installed }
    (installed.machine 0).strict = true ∧
    ∃ steps steps', runFrom passing 100 installed pays = some steps ∧
      runFrom passing 100 (installed.loosen 0) pays = some steps' ∧
      List.Forall₂ (Step.Relaxed 0 (strict.Evaluation passing.handler 0)) steps steps' ∧
      logSizes steps = [1, 10, 0] ∧ logSizes steps' = [1, 8, 0] := by
  intro logSizes strict
  have hFunctions : ∀ name, ∀ i ∈ (passing name).body, i.isAboutMode = false := by
    intro name i hi
    unfold passing at hi
    split at hi
    · cases hi
    · cases hi
    · obtain rfl := List.mem_singleton.mp hi
      rfl
    · cases hi
  -- every function that is called with two arguments here is a constant one
  obtain ⟨hQuiet, hClear⟩ :
      strict.AsksQuietly passing.handler 0 ∧ strict.Unambiguous passing.handler :=
    Config.asksQuietly_of_le 2 46 (by decide +kernel) (by decide +kernel)
  have hSizes : (runFrom passing 100 installed pays).map logSizes = some [1, 10, 0] := by
    decide +kernel
  have hSizes' : (runFrom passing 100 (installed.loosen 0) pays).map logSizes =
      some [1, 8, 0] := by
    decide +kernel
  obtain ⟨steps, hSteps, hLogs⟩ := Option.map_eq_some_iff.mp hSizes
  obtain ⟨hSame, -⟩ :=
    strict_is_conservative hFunctions (by decide) (by decide +kernel) hQuiet hClear
  obtain ⟨steps', hSteps', hRelaxed⟩ := hSame 100 steps hSteps
  rw [hSteps'] at hSizes'
  exact ⟨by decide +kernel, steps, steps', hSteps, hSteps', hRelaxed, hLogs,
    Option.some.inj hSizes'⟩

end Session

end RuleMachine
