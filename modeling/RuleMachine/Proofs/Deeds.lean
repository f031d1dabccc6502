import RuleMachine.Program.Execution

/-!
# What a program does itself

In an execution, the steps of a program are mixed with those of the functions it calls, of the
functions that these call, and so on. To say what the program itself does, each call counts as
one deed, however much happens during it: it has an outcome and leaves behind some world, and
that is all the program gets to know.

`Config.Did` is an execution seen in this way, as a list of deeds.

* `Config.Ends.of_bind`: what ends in two parts did so after the first part did.
* `Config.Did.leads`: what a program did, it did in some number of steps.
* `Config.did_after`: at every moment of an execution, either the program has just done something
  itself or a call it made is still under way.
* `Config.Did.of_bind`: what one program followed by another did, the first did and then the second.
-/

namespace RuleMachine

-- ---------------------------------------------------------------------------
-- Deeds
-- ---------------------------------------------------------------------------

/-- What a program can do itself, apart from looking. -/
inductive Act : Type 1 where
  | call (f : FunctionName) (args : List Value)
  | perform {β : Type} (p : Primitive β)

/-- Something done: what it was, the worlds before and after it, and how it failed if it did. -/
structure Deed where
  act : Act
  before : World
  after : World
  failure : Option Fault

/-- How something failed, if it did. -/
def failure? {α : Type} : Except Fault α → Option Fault
  | .ok _ => none
  | .error fault => some fault

/-- A primitive operation as a deed. Looking is none. -/
def Primitive.deeds {β : Type} (p : Primitive β) (w : World) : List Deed :=
  match p with
  | .look _ => []
  | p =>
    [{ act := .perform p
       before := w
       after := (p.effect w).2
       failure := failure? ((p.effect w).1.mapError w.fault) }]

namespace Config

variable (handler : Handler)

/-- Whether one moment is followed by another. -/
def Leads {α : Type} (c c' : Config α) : Prop := ∃ n, c.after .standard handler n = c'

/-- Whether an execution comes to an end with a given answer and leaves a given world. -/
def Ends {α : Type} (c : Config α) (a : α) (w : World) : Prop :=
  c.Leads handler { program := .ret a, world := w }

/-- Whether an execution comes to its end within a number of steps. -/
def EndsBy {α : Type} (n : Nat) (c : Config α) (a : α) (w : World) : Prop :=
  c.after .standard handler n = { program := .ret a, world := w }

/-- The moment at which a call of a function begins. -/
def calling (f : FunctionName) (args : List Value) (w : World) : Config (Except Fault Value) :=
  begin (handler f args) (w.emit (.called f args))

/-- What a program did itself from one moment to another. A call takes it from before the call to
after it. -/
inductive Did {α : Type} : Config α → List Deed → Config α → Prop
  | refl (c : Config α) : Did c [] c
  | perform {β : Type} {p : Primitive β} {next : Except Fault β → Program α} {w : World}
    {ds : List Deed} {c' : Config α}
    (rest : Did { program := next ((p.effect w).1.mapError w.fault), world := (p.effect w).2 }
      ds c') :
    Did { program := .perform p next, world := w } (p.deeds w ++ ds) c'
  | call {f : FunctionName} {args : List Value} {next : Except Fault Value → Program α}
    {w w' : World} {r : Except Fault Value} {ds : List Deed} {c' : Config α}
    (hCall : (calling handler f args w).Ends handler r w')
    (rest : Did { program := next r, world := w' } ds c') :
    Did { program := .call f args next, world := w }
      ({ act := .call f args, before := w, after := w', failure := failure? r } :: ds) c'
  | loop {β : Type} {body : Program (Option β)} {next : β → Program α} {w : World}
    {ds : List Deed} {c' : Config α}
    (rest : Did { program := .unroll body next, world := w } ds c') :
    Did { program := .loop body next, world := w } ds c'

/-- Whether a moment is one at which a program stands itself, or one during the call that it makes
there. -/
def During {α : Type} (c m : Config α) : Prop :=
  m = c ∨ ∃ f args next k, c.program = .call f args next ∧
    m = ((calling handler f args c.world).after .standard handler k).andThen next

-- ---------------------------------------------------------------------------
-- Where executions lead
-- ---------------------------------------------------------------------------

variable {handler}
variable {α : Type} {c c' : Config α} {ds : List Deed}

theorem Leads.refl (c : Config α) : c.Leads handler c := ⟨0, rfl⟩

/-- What a configuration leads to leads on. -/
theorem Leads.trans {c'' : Config α} (h : c.Leads handler c') (h' : c'.Leads handler c'') :
    c.Leads handler c'' := by
  obtain ⟨m, rfl⟩ := h
  obtain ⟨n, rfl⟩ := h'
  exact ⟨m + n, after_add c m n⟩

theorem Leads.of_next (h : c.next .standard handler = some c') : c.Leads handler c' :=
  ⟨1, after_succ_of_next h 0⟩

/-- What is to follow a program makes no difference to where it leads. -/
theorem Leads.andThen {β : Type} {c c' : Config β} (h : c.Leads handler c') (k : β → Program α) :
    (c.andThen k).Leads handler (c'.andThen k) := by
  obtain ⟨n, rfl⟩ := h
  obtain ⟨m, -, hm⟩ := after_andThen c k n
  exact ⟨m, hm⟩

/-- What follows a program begins where the program ends. -/
theorem Ends.andThen {β : Type} {b : β} {w : World} {c : Config β} (h : c.Ends handler b w)
    (k : β → Program α) : (c.andThen k).Leads handler { program := k b, world := w } :=
  Leads.andThen h k

theorem Ends.of_answer? {a : α} {n : Nat} (h : (c.after .standard handler n).answer? = some a) :
    c.Ends handler a (c.after .standard handler n).world :=
  ⟨n, congrArg (Config.mk · _) (program_of_answer? h)⟩

/-- A program that has answered without failure has come to its end. -/
theorem Ends.of_toOption {β : Type} {c : Config (Except Fault β)} {b : β} {n : Nat}
    (h : (c.after .standard handler n).answer?.bind Except.toOption = some b) :
    c.Ends handler (.ok b) (c.after .standard handler n).world := by
  obtain ⟨r, hr, hb⟩ := Option.bind_eq_some_iff.mp h
  cases r with
  | error fault => cases hb
  | ok b' =>
    obtain rfl := Option.some.inj hb
    exact .of_answer? hr

/-- An execution comes to one end. -/
theorem Ends.unique {a b : α} {w w' : World} (h : c.Ends handler a w) (h' : c.Ends handler b w') :
    a = b ∧ w = w' := by
  obtain ⟨m, hm⟩ := h
  obtain ⟨n, hn⟩ := h'
  have hSame : c.after .standard handler (m + n) = c.after .standard handler (n + m) := by
    rw [Nat.add_comm]
  rw [after_add, hm, after_ret, after_add, hn, after_ret] at hSame
  cases hSame
  exact ⟨rfl, rfl⟩

theorem EndsBy.ends {n : Nat} {c : Config α} {a : α} {w : World} (h : c.EndsBy handler n a w) :
    c.Ends handler a w := ⟨n, h⟩

theorem EndsBy.mono {i n : Nat} {c : Config α} {a : α} {w : World} (h : c.EndsBy handler i a w)
    (hn : i ≤ n) : c.EndsBy handler n a w := by
  have hEnd : (c.after .standard handler i).answer?.isSome = true := by rw [h]; rfl
  rw [EndsBy, after_of_ended hEnd hn, h]

theorem endsBy_ret {n : Nat} {a : α} {w : World} :
    ({ program := .ret a, world := w } : Config α).EndsBy handler n a w := after_ret a w n

/-- A program that has a value ends with no other value and in no other world. -/
theorem EndsBy.of_ret {n : Nat} {a b : α} {w v : World}
    (h : ({ program := .ret b, world := w } : Config α).EndsBy handler n a v) : a = b ∧ v = w := by
  rw [EndsBy, after_ret] at h
  cases h
  exact ⟨rfl, rfl⟩

/-- What ends before something follows it ends first, and the rest of the steps is left to that. -/
theorem EndsBy.of_andThen {β : Type} {c : Config β} {k : β → Program α} {n : Nat} {a : α}
    {w : World} (h : (c.andThen k).EndsBy handler n a w) :
    ∃ i ≤ n, ∃ b w₁, c.EndsBy handler i b w₁ ∧
      ({ program := k b, world := w₁ } : Config α).EndsBy handler (n - i) a w := by
  induction n generalizing c with
  | zero =>
    obtain ⟨p, v⟩ := c
    cases p with
    | ret b => exact ⟨0, Nat.le_refl 0, b, v, rfl, h⟩
    | perform _ _ | call _ _ _ | loop _ _ => cases h
  | succ n ih =>
    -- either the first part takes a step, or it has its value and the second part begins
    cases hNext : c.next .standard handler with
    | some c' =>
      rw [EndsBy, after_succ_of_next (next_andThen k hNext)] at h
      obtain ⟨i, hi, b, w₁, hFirst, hThen⟩ := ih h
      refine ⟨i + 1, Nat.succ_le_succ hi, b, w₁, ?_, ?_⟩
      · rw [EndsBy, after_succ_of_next hNext]
        exact hFirst
      · rwa [Nat.add_sub_add_right]
    | none =>
      obtain ⟨p, v⟩ := c
      cases p with
      | ret b => exact ⟨0, Nat.zero_le _, b, v, rfl, h⟩
      | perform _ _ | call _ _ _ | loop _ _ => cases hNext

/-- The second part may take the steps that the first one has not used. -/
theorem EndsBy.andThen {β : Type} {c : Config β} {k : β → Program α} {i j n : Nat} {a : α} {b : β}
    {w w₁ : World} (h : c.EndsBy handler i b w₁)
    (h' : ({ program := k b, world := w₁ } : Config α).EndsBy handler j a w) (hn : i + j ≤ n) :
    (c.andThen k).EndsBy handler n a w := by
  obtain ⟨m, hm, hAfter⟩ := after_andThen c k i
  rw [h] at hAfter
  have hRest : j ≤ n - m := by omega
  have hSplit : n = m + (n - m) := by omega
  rw [EndsBy, hSplit, after_add, hAfter]
  exact h'.mono hRest

/-- What ends before something follows it has an end of its own, from which that goes on. -/
theorem Ends.of_andThen {β : Type} {c : Config β} {k : β → Program α} {a : α} {w : World}
    (h : (c.andThen k).Ends handler a w) :
    ∃ b w₁, c.Ends handler b w₁ ∧
      ({ program := k b, world := w₁ } : Config α).Ends handler a w := by
  obtain ⟨n, hn⟩ := h
  obtain ⟨i, -, b, w₁, hFirst, hThen⟩ := EndsBy.of_andThen (c := c) hn
  exact ⟨b, w₁, hFirst.ends, hThen.ends⟩

/-- A moment that an execution comes through has the same end. -/
theorem Leads.ends_iff (h : c.Leads handler c') {a : α} {w : World} :
    c.Ends handler a w ↔ c'.Ends handler a w := by
  refine ⟨fun hEnds => ?_, h.trans⟩
  obtain ⟨m, rfl⟩ := h
  obtain ⟨n, hn⟩ := hEnds
  refine ⟨n, ?_⟩
  rw [← after_add, Nat.add_comm, after_add, hn, after_ret]

-- ---------------------------------------------------------------------------
-- Programs that may fail
-- ---------------------------------------------------------------------------

section

variable {β : Type} {w w₁ : World}

/-- What comes after a program begins where the program ends without failure. -/
theorem Ends.bind {x : Run β} {b : β} (h : (begin x w).Ends handler (.ok b) w₁) (f : β → Run α) :
    (begin (x >>= f) w).Leads handler (begin (f b) w₁) := by
  rw [begin, Run.run_bind]
  exact h.andThen _

/-- What comes first fails, and so does all of it. -/
theorem Ends.bind_error {x : Run β} {fault : Fault}
    (h : (begin x w).Ends handler (.error fault) w₁) (f : β → Run α) :
    (begin (x >>= f) w).Ends handler (.error fault) w₁ := by
  rw [begin, Run.run_bind]
  exact h.andThen _

/-- What ends without failure did so after its first part did. -/
theorem Ends.of_bind {x : Run β} {f : β → Run α} {a : α}
    (h : (begin (x >>= f) w).Ends handler (.ok a) w₁) :
    ∃ b v, (begin x w).Ends handler (.ok b) v ∧ (begin (f b) v).Ends handler (.ok a) w₁ := by
  rw [begin, Run.run_bind] at h
  obtain ⟨r, v, hFirst, hThen⟩ := Ends.of_andThen (c := begin x w) h
  cases r with
  | ok b => exact ⟨b, v, hFirst, hThen⟩
  | error fault => cases (hThen.unique (.refl _)).1

/-- A program in sequence fails with its first part, or it goes on with the value that it gave. -/
theorem EndsBy.of_bind {x : Run β} {f : β → Run α} {n : Nat} {r : Except Fault α} {w' : World}
    (h : (begin (x >>= f) w).EndsBy handler n r w') :
    (∃ i ≤ n, ∃ fault, (begin x w).EndsBy handler i (.error fault) w' ∧ r = .error fault) ∨
      ∃ i ≤ n, ∃ b w₁, (begin x w).EndsBy handler i (.ok b) w₁ ∧
        (begin (f b) w₁).EndsBy handler (n - i) r w' := by
  rw [begin, Run.run_bind] at h
  obtain ⟨i, hi, b, w₁, hFirst, hThen⟩ := EndsBy.of_andThen (c := begin x w) h
  -- a failure of the first part is passed on without a step
  cases b with
  | ok b => exact .inr ⟨i, hi, b, w₁, hFirst, hThen⟩
  | error fault =>
    obtain ⟨rfl, rfl⟩ := hThen.of_ret
    exact .inl ⟨i, hi, fault, hFirst, rfl⟩

/-- If the first part gives a value, the sequence ends as the second part does from there. -/
theorem EndsBy.bind {x : Run β} {f : β → Run α} {i j n : Nat} {b : β} {r : Except Fault α}
    {w' : World} (h : (begin x w).EndsBy handler i (.ok b) w₁)
    (h' : (begin (f b) w₁).EndsBy handler j r w') (hn : i + j ≤ n) :
    (begin (x >>= f) w).EndsBy handler n r w' := by
  rw [begin, Run.run_bind]
  exact EndsBy.andThen (c := begin x w) h h' hn

/-- What comes of the outcome of a program. -/
theorem Ends.outcome {x : Run β} {r : Except Fault β} (h : (begin x w).Ends handler r w₁)
    (f : Except Fault β → Run α) :
    (begin (Run.outcome x >>= f) w).Leads handler (begin (f r) w₁) := by
  rw [begin, Run.run_outcome_bind]
  exact h.andThen _

/-- What ended without failure that is a primitive operation did what that does. -/
theorem Ends.of_act {p : Primitive β} {b : β} (h : (begin (Run.act p) w).Ends handler (.ok b) w₁) :
    p.effect w = (.ok b, w₁) := by
  -- executions are deterministic, so the outcome is that of the primitive
  have hEnds : (begin (Run.act p) w).Ends handler ((p.effect w).1.mapError w.fault)
      (p.effect w).2 := .of_next rfl
  obtain ⟨hAnswer, rfl⟩ := h.unique hEnds
  refine Prod.ext ?_ rfl
  cases hResult : (p.effect w).1 with
  | ok c =>
    rw [hResult] at hAnswer
    exact congrArg Except.ok (Except.ok.inj hAnswer).symm
  | error cause =>
    rw [hResult] at hAnswer
    cases hAnswer

/-- What kept a machine in use and ended without failure did what it did meanwhile. -/
theorem Ends.of_keeping {m : MachineRef} {x : Run β} {b : β}
    (h : (begin (Run.keeping m x) w).Ends handler (.ok b) w₁) :
    ∃ v, (begin x { w with active := m :: w.active }).Ends handler (.ok b) v ∧
      w₁ = { v with active := v.active.tail } := by
  -- the machine is put on the list before, and taken off it in either case
  obtain ⟨_, v, hActivate, h⟩ := h.of_bind
  obtain rfl : { w with active := m :: w.active } = v := (Prod.ext_iff.mp hActivate.of_act).2
  rw [begin, Run.run_outcome_bind] at h
  obtain ⟨r, v, hMeanwhile, h⟩ := Ends.of_andThen (c := begin x _) h
  obtain ⟨_, v', hRelease, h⟩ := Ends.of_bind (x := Run.keep .release) h
  obtain rfl : { v with active := v.active.tail } = v' := (Prod.ext_iff.mp hRelease.of_act).2
  obtain ⟨rfl, rfl⟩ := h.unique (.refl _)
  exact ⟨v, hMeanwhile, rfl⟩

end

-- ---------------------------------------------------------------------------
-- Deeds and steps
-- ---------------------------------------------------------------------------

theorem next_call (f : FunctionName) (args : List Value) (next : Except Fault Value → Program α)
    (w : World) :
    ({ program := .call f args next, world := w } : Config α).next .standard handler =
      some ((calling handler f args w).andThen next) := rfl

/-- **What a program did, it did in some number of steps.** -/
theorem Did.leads (h : c.Did handler ds c') : c.Leads handler c' := by
  induction h with
  | refl c => exact .refl c
  | perform rest ih => exact (Leads.of_next rfl).trans ih
  | call hCall rest ih =>
    exact (Leads.of_next (next_call _ _ _ _)).trans ((hCall.andThen _).trans ih)
  | loop rest ih => exact (Leads.of_next rfl).trans ih

/-- As long as a program has not ended, what follows it waits. -/
theorem after_andThen_of_running {β : Type} (k : α → Program β) {n : Nat}
    (h : ∀ a, (c.after .standard handler n).program ≠ .ret a) :
    (c.andThen k).after .standard handler n = (c.after .standard handler n).andThen k := by
  induction n generalizing c with
  | zero => rfl
  | succ n ih =>
    -- as long as the first part has no value, its steps are those of the whole
    cases hNext : c.next .standard handler with
    | some c' =>
      rw [after_succ_of_next hNext] at h ⊢
      rw [after_succ_of_next (next_andThen k hNext), ih h]
    | none =>
      rw [after_of_next_eq_none hNext] at h
      obtain ⟨p, w⟩ := c
      cases p with
      | ret a => exact absurd rfl (h a)
      | perform p next => cases hNext
      | call f args next => cases hNext
      | loop body next => cases hNext

/-- **Every moment is one of the program's own or one during a call that it made.** -/
theorem did_after (c : Config α) (n : Nat) :
    ∃ ds c', c.Did handler ds c' ∧ c'.During handler (c.after .standard handler n) := by
  induction n using Nat.strongRecOn generalizing c with
  | ind n ih =>
    obtain ⟨p, w⟩ := c
    cases n with
    | zero => exact ⟨[], _, .refl _, .inl rfl⟩
    | succ n =>
      cases p with
      | ret a => exact ⟨[], _, .refl _, .inl rfl⟩
      | perform p next =>
        obtain ⟨ds, c', hDid, hDuring⟩ := ih n (Nat.lt_succ_self n) _
        exact ⟨_, c', .perform hDid, hDuring⟩
      | loop body next =>
        obtain ⟨ds, c', hDid, hDuring⟩ := ih n (Nat.lt_succ_self n) _
        exact ⟨ds, c', .loop hDid, hDuring⟩
      | call f args next =>
        rw [after_succ_of_next (next_call f args next w)]
        -- either the call has ended by then or it is still under way
        cases hCallee : ((calling handler f args w).after .standard handler n).program with
        | ret r =>
          have hEnds : (calling handler f args w).after .standard handler n =
              { program := .ret r
                world := ((calling handler f args w).after .standard handler n).world } := by
            rw [← hCallee]
          obtain ⟨m, hmn, hm⟩ := after_andThen (calling handler f args w) next n
          rw [hEnds] at hm
          obtain ⟨ds, c', hDid, hDuring⟩ := ih (n - m) (by omega) _
          refine ⟨_, c', .call ⟨n, hEnds⟩ hDid, ?_⟩
          rw [← Nat.add_sub_cancel' hmn, after_add, hm]
          exact hDuring
        | perform _ _ | call _ _ _ | loop _ _ =>
          refine ⟨[], _, .refl _, .inr ⟨f, args, next, n, rfl, ?_⟩⟩
          exact after_andThen_of_running next fun a => by rw [hCallee]; exact fun h => by cases h

theorem Did.of_eq {c₀ : Config α} (hc : c₀ = c) (h : c.Did handler ds c') : c₀.Did handler ds c' :=
  hc ▸ h

/-- **What two programs did one after the other:** the first is still at it, or it has ended and the
second did the rest. -/
theorem Did.of_bind {β : Type} {p : Program β} {k : β → Program α} {w : World}
    (h : ({ program := p.bind k, world := w } : Config α).Did handler ds c') :
    (∃ p', ({ program := p, world := w } : Config β).Did handler ds
        { program := p', world := c'.world } ∧ (∀ b, p' ≠ .ret b) ∧ c'.program = p'.bind k) ∨
      ∃ ds₁ ds₂ b w₁, ds = ds₁ ++ ds₂ ∧
        ({ program := p, world := w } : Config β).Did handler ds₁
          { program := .ret b, world := w₁ } ∧
        ({ program := k b, world := w₁ } : Config α).Did handler ds₂ c' := by
  -- the induction is on the deeds of the whole, whose program is a sequence at each step
  generalize hc : ({ program := p.bind k, world := w } : Config α) = c at h
  induction h generalizing p w with
  -- nothing was done yet: the second part has begun only if the first is a value
  | refl c =>
    subst hc
    cases p with
    | ret b => exact .inr ⟨[], [], b, w, rfl, .refl _, .refl _⟩
    | perform _ _ | call _ _ _ | loop _ _ =>
      exact .inl ⟨_, .refl _, fun b h => (by cases h), rfl⟩
  | perform rest ih =>
    cases p with
    | ret b => exact .inr ⟨[], _, b, w, rfl, .refl _, Did.of_eq hc (.perform rest)⟩
    | perform q next =>
      cases hc
      rcases ih rfl with ⟨p', hDid, hRunning, hProgram⟩ | ⟨ds₁, ds₂, b, w₁, hds, hDid, hRest⟩
      · exact .inl ⟨p', .perform hDid, hRunning, hProgram⟩
      · exact .inr ⟨_, ds₂, b, w₁, by rw [hds, List.append_assoc], .perform hDid, hRest⟩
    | call _ _ _ | loop _ _ => cases hc
  | call hCall rest ih =>
    cases p with
    | ret b => exact .inr ⟨[], _, b, w, rfl, .refl _, Did.of_eq hc (.call hCall rest)⟩
    | call f args next =>
      cases hc
      rcases ih rfl with ⟨p', hDid, hRunning, hProgram⟩ | ⟨ds₁, ds₂, b, w₁, hds, hDid, hRest⟩
      · exact .inl ⟨p', .call hCall hDid, hRunning, hProgram⟩
      · exact .inr ⟨_, ds₂, b, w₁, by rw [hds, List.cons_append], .call hCall hDid, hRest⟩
    | perform _ _ | loop _ _ => cases hc
  | @loop _ body _ _ _ _ rest ih =>
    cases p with
    | ret b => exact .inr ⟨[], _, b, w, rfl, .refl _, Did.of_eq hc (.loop rest)⟩
    | loop _ next =>
      cases hc
      rcases ih (congrArg (Config.mk · _) (Program.unroll_bind body next k)) with
        ⟨p', hDid, hRunning, hProgram⟩ | ⟨ds₁, ds₂, b, w₁, hds, hDid, hRest⟩
      · exact .inl ⟨p', .loop hDid, hRunning, hProgram⟩
      · exact .inr ⟨ds₁, ds₂, b, w₁, hds, .loop hDid, hRest⟩
    | perform _ _ | call _ _ _ => cases hc

-- ---------------------------------------------------------------------------
-- What deeds are
-- ---------------------------------------------------------------------------

/-- Whether deeds lead from one world to another, with nothing happening between them. -/
def Linked : World → List Deed → World → Prop
  | w, [], w' => w = w'
  | w, d :: ds, w' => d.before = w ∧ Linked d.after ds w'

/-- All that happens to the world are the deeds. -/
theorem Did.linked (h : c.Did handler ds c') : Linked c.world ds c'.world := by
  induction h with
  | refl c => exact rfl
  | @perform _ p _ _ _ _ rest ih =>
    cases p with
    | look q => exact ih
    | _ => exact ⟨rfl, ih⟩
  | call hCall rest ih => exact ⟨rfl, ih⟩
  | loop rest ih => exact ih

end Config

/-- The deed of a primitive records the worlds before and after it, and its failure. -/
theorem Primitive.mem_deeds {β : Type} {p : Primitive β} {w : World} {d : Deed}
    (h : d ∈ p.deeds w) :
    d = { act := .perform p, before := w, after := (p.effect w).2,
          failure := failure? ((p.effect w).1.mapError w.fault) } := by
  cases p with
  | look q => cases h
  | _ => exact List.mem_singleton.mp h

namespace Config

variable {handler : Handler} {α : Type} {c c' : Config α} {ds : List Deed}

/-- A deed that is a primitive operation has the effect of the operation. -/
theorem Did.of_perform (h : c.Did handler ds c') {d : Deed} (hd : d ∈ ds) {β : Type}
    {p : Primitive β} (hAct : d.act = .perform p) :
    d.after = (p.effect d.before).2 ∧
      d.failure = failure? ((p.effect d.before).1.mapError d.before.fault) := by
  induction h with
  | refl c => cases hd
  | perform rest ih =>
    rcases List.mem_append.mp hd with hd | hd
    · obtain rfl := Primitive.mem_deeds hd
      cases hAct
      exact ⟨rfl, rfl⟩
    · exact ih hd
  | call hCall rest ih =>
    rcases List.mem_cons.mp hd with rfl | hd
    · cases hAct
    · exact ih hd
  | loop rest ih => exact ih hd

/-- Before each deed the program stood somewhere itself. -/
theorem Did.before (h : c.Did handler ds c') {d : Deed} (hd : d ∈ ds) :
    ∃ ds₁ c₁, c.Did handler ds₁ c₁ ∧ c₁.world = d.before := by
  -- the world before a deed is the one in which the deeds before it ended
  induction h with
  | refl c => cases hd
  | perform rest ih =>
    rcases List.mem_append.mp hd with hd | hd
    · obtain rfl := Primitive.mem_deeds hd
      exact ⟨[], _, .refl _, rfl⟩
    · obtain ⟨ds₁, c₁, hDid, hWorld⟩ := ih hd
      exact ⟨_, c₁, .perform hDid, hWorld⟩
  | call hCall rest ih =>
    rcases List.mem_cons.mp hd with rfl | hd
    · exact ⟨[], _, .refl _, rfl⟩
    · obtain ⟨ds₁, c₁, hDid, hWorld⟩ := ih hd
      exact ⟨_, c₁, .call hCall hDid, hWorld⟩
  | loop rest ih =>
    obtain ⟨ds₁, c₁, hDid, hWorld⟩ := ih hd
    exact ⟨ds₁, c₁, .loop hDid, hWorld⟩

end Config

end RuleMachine
