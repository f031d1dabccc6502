import RuleMachine.Proofs.Static
import RuleMachine.Proofs.Tidy

/-!
# Parties that keep apart

What there is in a world belongs to one of several parties, or to nobody: machines, the names that
machines are bound to, the names under which states and steppers are kept, and streams. Who keeps
apart from the others changes and uses up only what is their own, and looks at nothing but that and
what belongs to nobody. Then the others find everything of theirs as it was. And whoever keeps apart
does the same in all worlds that are the same for them, however the machines of the others stand.

One thing has to be asked for in addition. States can be named by anything, also by a machine, and
the text of a machine shows where it stands. So what is written must not mention machines of others,
neither itself nor in the names that it shows.

* `Primitive.KeepsApart`: when a primitive operation keeps apart.
* `Primitive.KeepsApart.sameFor`: what it leaves to the others.
* `Primitive.KeepsApart.agrees`: what it does in worlds that are the same for a party.
* `Config.KeepsApart.sameFor`, `Config.agrees_after`: the same for executions.
-/

namespace RuleMachine

variable {ι : Type}

-- ---------------------------------------------------------------------------
-- Some of the bindings
-- ---------------------------------------------------------------------------

namespace Bindings

variable {α : Type}

/-- The bindings of some names. -/
def only (P : String → Bool) (b : Bindings α) : Bindings α := b.filter fun e => P e.1

variable {P : String → Bool} {b : Bindings α} {id : String}

/-- A name that is not left out is bound to what it was bound to. -/
theorem get?_only (h : P id = true) : (b.only P).get? id = b.get? id := by
  induction b with
  | nil => rfl
  | cons e rest ih =>
    obtain ⟨key, a⟩ := e
    simp only [only, get?] at ih ⊢
    by_cases hSame : id = key
    · subst hSame
      simp [h]
    · cases hKey : P key <;> simp [hKey, List.lookup_cons, beq_false_of_ne hSame, ih]

/-- It makes no difference whether names are left out before or after one is dropped. -/
theorem only_erase (b : Bindings α) (P : String → Bool) (id : String) :
    (b.erase id).only P = (b.only P).erase id := by
  simp only [only, erase, List.filter_filter, Bool.and_comm]

/-- Binding a name that is not left out. -/
theorem only_insert (b : Bindings α) (h : P id = true) (a : α) :
    (b.insert id a).only P = (b.only P).insert id a := by
  rw [insert, insert, ← only_erase]
  exact List.filter_cons_of_pos h

/-- Of a name that is left out it makes no difference what it is bound to. -/
theorem only_erase_of_neg (b : Bindings α) (h : P id = false) : (b.erase id).only P = b.only P := by
  rw [only, erase, List.filter_filter, only]
  refine List.filter_congr fun e _ => ?_
  by_cases hSame : e.1 = id
  · simp [hSame, h]
  · simp [hSame]

/-- And of such a name it makes no difference whether it is bound at all. -/
theorem only_insert_of_neg (b : Bindings α) (h : P id = false) (a : α) :
    (b.insert id a).only P = b.only P := by
  rw [← only_erase_of_neg b h, insert, only, List.filter_cons_of_neg (by simpa using h), only]

end Bindings

-- ---------------------------------------------------------------------------
-- What belongs to whom
-- ---------------------------------------------------------------------------

/-- To whom machines, the names that machines are bound to, the names of states and steppers that
are kept, and streams belong. What belongs to nobody is there for everybody to look at. -/
structure Owners (ι : Type) where
  machine : MachineRef → Option ι
  bound : String → Option ι
  held : String → Option ι
  stepper : String → Option ι
  stream : Nat → Option ι

/-- Whether machines are bound to the names of a party only if they belong to it. So no machine of
another party and none of nobody goes when the party drops a name. -/
def World.Fits (owners : Owners ι) (w : World) : Prop :=
  ∀ e ∈ w.bound, ∀ party ∈ owners.bound e.1, owners.machine e.2 = some party

/-- Whether what has been made between two worlds belongs to a party. -/
structure World.Makes (owners : Owners ι) (me : ι) (w w' : World) : Prop where
  machines : ∀ m, w.machines.length ≤ m → m < w'.machines.length → owners.machine m = some me
  streams : ∀ id, w.streams.left.length ≤ id → id < w'.streams.left.length →
    owners.stream id = some me

/-- In between no more has been made. -/
theorem World.Makes.mono {owners : Owners ι} {me : ι} {w v v' w' : World}
    (h : w.Makes owners me w') (hBefore : w.supply ≤ v.supply) (hAfter : v'.supply ≤ w'.supply) :
    v.Makes owners me v' where
  machines m hm hm' := h.machines m (Nat.le_trans (hBefore .machine) hm)
    (Nat.lt_of_lt_of_le hm' (hAfter .machine))
  streams id hId hId' := h.streams id (Nat.le_trans (hBefore .stream) hId)
    (Nat.lt_of_lt_of_le hId' (hAfter .stream))

section

variable [DecidableEq ι] (owners : Owners ι) (me : ι)

/-- Whether a party may look at something, of which it is said to whom it belongs. -/
def isOpenTo (me : ι) (owner : Option ι) : Bool :=
  match owner with
  | some party => party = me
  | none => true

/-- The names that a party may look up, with the machines that are bound to them. -/
def Owners.seen (b : Bindings MachineRef) : Bindings MachineRef :=
  b.only fun id => isOpenTo me (owners.bound id)

/-- Whether a question is about something that a party may look at. What is written may mention
anything here, and is restricted elsewhere. -/
def Query.within {β : Type} (q : Query β) : Bool :=
  match q with
  | .write _ => true
  | .bound id => isOpenTo me (owners.bound id)
  | .held id => isOpenTo me (owners.held id)
  | .stepper id => isOpenTo me (owners.stepper id)
  | .alive m | .states m | .resolve m _ | .table m | .current m | .previous m | .history m
  | .notes m | .done m | .strict m => isOpenTo me (owners.machine m)
  | .name s | .actions s _ | .rules s | .visitCount s | .latest s _ | .slots s _ =>
    isOpenTo me (owners.machine s.machine)

/-- Whether bookkeeping keeps what belongs to a party, under names that belong to it. -/
def Bookkeeping.within (b : Bookkeeping) : Bool :=
  match b with
  | .bind id m => owners.bound id = some me ∧ owners.machine m = some me
  | .unbind id => owners.bound id = some me
  | .hold id _ => owners.held id = some me
  | .openStepper id m _ => owners.stepper id = some me ∧ owners.machine m = some me
  | .setPhase id _ => owners.stepper id = some me
  | .activate _ | .release | .switching _ _ _ | .noTransition _ _ | .performed _ _ => true

/-- Whether a primitive operation looks only at what a party may look at, and changes only what
belongs to it, as far as machines and names are concerned. -/
def Primitive.within {β : Type} (p : Primitive β) : Bool :=
  match p with
  | .fail _ | .read _ | .nan | .stream _ | .construct _ => true
  | .look q => q.within owners me
  | .commit s | .assign s _ _ => owners.machine s.machine = some me
  | .reset m | .assignCurrent m _ _ | .adjust m _ => owners.machine m = some me
  | .keep b => b.within owners me

/-- Whether a reading takes items from streams of a party only, and gives the same whatever those of
the others have left. -/
structure Reading.TakesOwn {ε α : Type} (r : Reading ε α) (s : Streams) : Prop where
  makesNone : (r.result s).2.left.length = s.left.length
  spares : ∀ id, owners.stream id ≠ some me → (r.result s).2.left[id]? = s.left[id]?
  same : ∀ s' : Streams, s'.left.length = s.left.length →
    (∀ id, isOpenTo me (owners.stream id) = true → s'.left[id]? = s.left[id]?) →
    (r.result s').1 = (r.result s).1 ∧
      (r.result s').2.left.length = (r.result s).2.left.length ∧
      ∀ id, isOpenTo me (owners.stream id) = true →
        (r.result s').2.left[id]? = (r.result s).2.left[id]?

/-- Whether the readings of a primitive operation take items from streams of a party only. -/
def Primitive.TakesOwn {β : Type} (p : Primitive β) (w : World) : Prop :=
  match p with
  | .read r => r.TakesOwn owners me w.streams
  | .construct table => (readTable w.machines.length table).TakesOwn owners me w.streams
  | _ => True

/-- Whether all machines are open to a party that are shown when some values are written. -/
def World.Discloses (w : World) (values : List Value) : Prop :=
  ∀ v ∈ values, ∀ m, w.Mentions v (.machine m) → isOpenTo me (owners.machine m) = true

/-- The values that a primitive operation writes into the log or into what it answers. -/
def Primitive.written {β : Type} (p : Primitive β) (w : World) : List Value :=
  match p with
  | .look (.write x) => x.values
  | .commit s => [(w.state s).name]
  | .keep (.switching _ source target) => [source, target]
  | .keep (.noTransition _ source) => [source]
  | _ => []

/-- **Whether a primitive operation keeps apart from everybody else,** when it is performed on
behalf of a party. Nothing that it writes mentions machines of others, and no message of a failure
does. -/
structure Primitive.KeepsApart {β : Type} (p : Primitive β) (w : World) : Prop where
  within : p.within owners me = true
  takes : p.TakesOwn owners me w
  written : (p.effect w).2.Discloses owners me (p.written w)
  failures : ∀ cause, (p.effect w).1 = .error cause → w.Discloses owners me cause.values

-- ---------------------------------------------------------------------------
-- Worlds that are the same for a party
-- ---------------------------------------------------------------------------

/-- Whether all that a party may look at is the same in a later world. The tables of machines are
the same in any case. -/
structure World.SameFor (w w' : World) : Prop where
  grows : w.machines.length ≤ w'.machines.length
  machine : ∀ m, isOpenTo me (owners.machine m) = true → w'.machine m = w.machine m
  declared : ∀ m < w.machines.length, (w'.machine m).declared = (w.machine m).declared
  bound : owners.seen me w'.bound = owners.seen me w.bound
  pinned : ∀ m, isOpenTo me (owners.machine m) = true →
    w'.pinned.contains m = w.pinned.contains m
  held : ∀ id, isOpenTo me (owners.held id) = true → w'.held.get? id = w.held.get? id
  steppers : ∀ id, isOpenTo me (owners.stepper id) = true →
    w'.steppers.get? id = w.steppers.get? id
  streams : ∀ id, isOpenTo me (owners.stream id) = true →
    w'.streams.left[id]? = w.streams.left[id]?

/-- Whether two entries of the log tell a party the same. -/
structure LogEntry.SameFor (e e' : LogEntry) : Prop where
  event : e'.event = e.event
  machines : owners.seen me e'.machines = owners.seen me e.machines

/-- Whether two worlds can be told apart only by what a party may not look at. -/
structure World.Agrees (w w' : World) : Prop extends w.SameFor owners me w' where
  length : w'.machines.length = w.machines.length
  active : w'.active = w.active
  nans : w'.nans = w.nans
  streamCount : w'.streams.left.length = w.streams.left.length
  log : List.Forall₂ (LogEntry.SameFor owners me) w.log.toList w'.log.toList
  fits : w.Fits owners
  fits' : w'.Fits owners

end

variable [DecidableEq ι] {owners : Owners ι} {me other : ι} {owner : Option ι}

@[simp] theorem isOpenTo_self (me : ι) : isOpenTo me (some me) = true := decide_eq_true rfl

theorem isOpenTo_of_eq (h : owner = some me) : isOpenTo me owner = true := h ▸ isOpenTo_self me

/-- What belongs to one party another one may not look at. -/
theorem not_isOpenTo (h : owner = some me) (hOther : other ≠ me) :
    isOpenTo other owner = false := by
  subst h
  exact decide_eq_false fun hSame => hOther hSame.symm

/-- What two parties may look at is not the same as what belongs to one of them. -/
theorem ne_of_isOpenTo {α : Type} {owner : α → Option ι} {a b : α} (ha : owner a = some me)
    (hb : isOpenTo other (owner b) = true) (hOther : other ≠ me) : b ≠ a := by
  rintro rfl
  rw [not_isOpenTo ha hOther] at hb
  cases hb

/-- Logging something changes nothing of what is shown. -/
theorem World.Discloses.of_emit {w : World} {event : Event} {values : List Value}
    (h : (w.emit event).Discloses owners me values) : w.Discloses owners me values := by
  intro v hv m hm
  have hMachines : w.machines = (w.emit event).machines := rfl
  exact h v hv m (hm.of_machines hMachines)

/-- Who writes less shows no more. -/
theorem World.Discloses.mono {w : World} {values others : List Value}
    (h : w.Discloses owners me values) (hFewer : others ⊆ values) : w.Discloses owners me others :=
  fun v hv => h v (hFewer hv)

namespace World.SameFor

variable {w w' w'' : World}

/-- Nothing is different in one and the same world. -/
theorem refl (owners : Owners ι) (me : ι) (w : World) : SameFor owners me w w where
  grows := Nat.le_refl _
  machine _ _ := rfl
  declared _ _ := rfl
  bound := rfl
  pinned _ _ := rfl
  held _ _ := rfl
  steppers _ _ := rfl
  streams _ _ := rfl

/-- What is the same after one change and after another is the same after both. -/
theorem trans (h : w.SameFor owners me w') (h' : w'.SameFor owners me w'') :
    w.SameFor owners me w'' where
  grows := Nat.le_trans h.grows h'.grows
  machine m hm := (h'.machine m hm).trans (h.machine m hm)
  declared m hm := (h'.declared m (Nat.lt_of_lt_of_le hm h.grows)).trans (h.declared m hm)
  bound := h'.bound.trans h.bound
  pinned m hm := (h'.pinned m hm).trans (h.pinned m hm)
  held id hId := (h'.held id hId).trans (h.held id hId)
  steppers id hId := (h'.steppers id hId).trans (h.steppers id hId)
  streams id hId := (h'.streams id hId).trans (h.streams id hId)

/-- A change of a machine that belongs to another party. -/
theorem modifyMachine (w : World) {m : MachineRef} {f : Machine → Machine}
    (hm : owners.machine m = some me) (hOther : other ≠ me)
    (hTable : ∀ m : Machine, (f m).declared = m.declared) :
    w.SameFor owners other (w.modifyMachine m f) := by
  refine
    { refl owners other w with
      grows := Nat.le_of_eq (w.length_modifyMachine m f).symm
      machine := fun ref hRef =>
        machine_modifyMachine_ne w f (ne_of_isOpenTo hm hRef hOther).symm
      declared := fun ref _ => ?_ }
  -- the machine itself is not open to the other party, and its table stays
  rw [machine_modifyMachine]
  split
  · rename_i h
    rw [hTable, h.1]
  · rfl

/-- Writing to a slot on behalf of another party. -/
theorem assign (w : World) {s : StateRef} (slot : Slot) (v : Value)
    (hs : owners.machine s.machine = some me) (hOther : other ≠ me) :
    w.SameFor owners other (w.update (w.assign s slot v)).2 := by
  rcases w.update_assign s slot v with hSame | hPut
  · rw [hSame]
    exact .refl _ _ w
  · rw [hPut]
    exact modifyMachine w hs hOther fun m => m.declared_setSlot s.index slot v

/-- What is built and made on behalf of another party. -/
theorem of_makes (hMakes : w.Makes owners me w') (hOther : other ≠ me)
    (hMachines : ∃ new, w'.machines = w.machines ++ new)
    (hStreams : ∀ id < w.streams.left.length, isOpenTo other (owners.stream id) = true →
      w'.streams.left[id]? = w.streams.left[id]?)
    (hBound : w'.bound = w.bound) (hPinned : w'.pinned = w.pinned) (hHeld : w'.held = w.held)
    (hSteppers : w'.steppers = w.steppers) : w.SameFor owners other w' := by
  obtain ⟨new, hNew⟩ := hMachines
  have hLength : w.machines.length ≤ w'.machines.length := by
    rw [hNew, List.length_append]
    exact Nat.le_add_right _ _
  have hOld (m : MachineRef) (hm : m < w.machines.length) : w'.machine m = w.machine m := by
    rw [World.machine, hNew, List.getElem?_append_left hm, World.machine]
  refine
    { grows := hLength
      machine := fun m hm => ?_
      declared := fun m hm => by rw [hOld m hm]
      bound := by rw [hBound]
      pinned := fun _ _ => by rw [hPinned]
      held := fun _ _ => by rw [hHeld]
      steppers := fun _ _ => by rw [hSteppers]
      streams := fun id hId => ?_ }
  · -- a machine that is open to the other party was there before, or is not there at all
    rcases Nat.lt_or_ge m w.machines.length with hBuilt | hBeyond
    · exact hOld m hBuilt
    · have hNone : w'.machines.length ≤ m := Nat.le_of_not_lt fun hLt =>
        ne_of_isOpenTo (hMakes.machines m hBeyond hLt) hm hOther rfl
      rw [World.machine_of_le hNone, World.machine_of_le hBeyond]
  · rcases Nat.lt_or_ge id w.streams.left.length with hMade | hBeyond
    · exact hStreams id hMade hId
    · have hNone : w'.streams.left.length ≤ id := Nat.le_of_not_lt fun hLt =>
        ne_of_isOpenTo (hMakes.streams id hBeyond hLt) hId hOther rfl
      rw [List.getElem?_eq_none hNone, List.getElem?_eq_none hBeyond]

end World.SameFor

-- ---------------------------------------------------------------------------
-- What is left to the others
-- ---------------------------------------------------------------------------

section

variable {w : World}

/-- Names and steppers that are kept on behalf of one party are not those of the others. -/
theorem Bookkeeping.sameFor {b : Bookkeeping} (hWithin : b.within owners me = true)
    (hOther : other ≠ me) : w.SameFor owners other (b.apply w) := by
  have hSelf := World.SameFor.refl owners other w
  -- a name of one party is never a name that another may look up
  cases b with
  | bind id m =>
    have hId := not_isOpenTo (of_decide_eq_true hWithin).1 hOther
    exact { hSelf with bound := Bindings.only_insert_of_neg w.bound hId m }
  | unbind id =>
    have hId := not_isOpenTo (of_decide_eq_true hWithin) hOther
    exact { hSelf with bound := Bindings.only_erase_of_neg w.bound hId }
  | hold id s =>
    refine { hSelf with held := fun key hKey => ?_ }
    exact Bindings.get?_insert_ne _ _ (ne_of_isOpenTo (of_decide_eq_true hWithin) hKey hOther)
  | openStepper id m inputs =>
    obtain ⟨hId, hm⟩ := of_decide_eq_true hWithin
    refine { hSelf with pinned := fun ref hRef => ?_, steppers := fun key hKey => ?_ }
    · have hNe : ref ≠ m := ne_of_isOpenTo hm hRef hOther
      exact List.contains_cons.trans (by rw [beq_false_of_ne hNe, Bool.false_or])
    · exact Bindings.get?_insert_ne _ _ (ne_of_isOpenTo hId hKey hOther)
  | setPhase id phase =>
    rw [Bookkeeping.apply]
    cases w.steppers.get? id with
    | none => exact hSelf
    | some s =>
      refine { hSelf with steppers := fun key hKey => ?_ }
      exact Bindings.get?_insert_ne _ _ (ne_of_isOpenTo (of_decide_eq_true hWithin) hKey hOther)
  | _ => exact { hSelf with }

/-- **What is done on behalf of one party leaves the others what they may look at.** -/
theorem Primitive.KeepsApart.sameFor {β : Type} {p : Primitive β} (h : p.KeepsApart owners me w)
    (hMakes : w.Makes owners me (p.effect w).2) (hOther : other ≠ me) :
    w.SameFor owners other (p.effect w).2 := by
  have hSelf := World.SameFor.refl owners other w
  obtain ⟨hWithin, hTakes, -, -⟩ := h
  cases p with
  | fail | look => exact hSelf
  | nan => exact { hSelf with }
  | construct table =>
    obtain ⟨-, hSpares, -⟩ := hTakes
    have hKept (id : Nat) (hId : isOpenTo other (owners.stream id) = true) :=
      hSpares id fun hMine => ne_of_isOpenTo hMine hId hOther rfl
    simp only [Primitive.effect, World.construct] at hMakes ⊢
    -- streams may have been drained by a table that is refused
    rcases hRead : (readTable w.machines.length table).result w.streams with ⟨cause | m, t⟩
    · rw [hRead] at hKept
      simp only [hRead] at hMakes ⊢
      exact .of_makes hMakes hOther ⟨[], (List.append_nil _).symm⟩ (fun id _ => hKept id) rfl
        rfl rfl rfl
    · rw [hRead] at hKept
      simp only [hRead] at hMakes ⊢
      exact .of_makes hMakes hOther ⟨[m], rfl⟩ (fun id _ => hKept id) rfl
        rfl rfl rfl
  | commit s =>
    have hs : owners.machine s.machine = some me := of_decide_eq_true hWithin
    have hEnter := World.SameFor.modifyMachine w hs hOther fun m => m.declared_enter s.index
    show w.SameFor owners other (w.commit s)
    unfold World.commit
    split
    · exact { hEnter with }
    · exact hSelf
  | reset m =>
    have hm : owners.machine m = some me := of_decide_eq_true hWithin
    exact { World.SameFor.modifyMachine w hm hOther Machine.declared_reset with }
  | assign s slot v => exact .assign w slot v (of_decide_eq_true hWithin) hOther
  | assignCurrent m slot v =>
    show w.SameFor owners other (w.update (w.assignCurrent m slot v)).2
    unfold World.assignCurrent
    split
    · rename_i s hCurrent
      obtain ⟨index, -, rfl⟩ := Option.map_eq_some_iff.mp hCurrent
      exact .assign w slot v (of_decide_eq_true hWithin) hOther
    · exact hSelf
  | adjust m a =>
    exact .modifyMachine w (of_decide_eq_true hWithin) hOther fun m => by cases a <;> rfl
  | keep b => exact Bookkeeping.sameFor hWithin hOther
  | read r =>
    refine { hSelf with streams := fun id hId => hTakes.spares id fun hMine => ?_ }
    exact ne_of_isOpenTo hMine hId hOther rfl
  | stream items =>
    exact .of_makes hMakes hOther ⟨[], (List.append_nil _).symm⟩
      (fun id hId _ => List.getElem?_append_left hId) rfl rfl rfl rfl

/-- Nothing is taken away. -/
theorem Primitive.KeepsApart.supply_le {β : Type} {p : Primitive β} (h : p.KeepsApart owners me w) :
    w.supply ≤ (p.effect w).2.supply := by
  cases hRead : p.isReading with
  | false => exact p.supply_effect hRead w
  | true =>
    cases p with
    | read r =>
      have hCount := h.takes.makesNone
      intro kind
      cases kind with
      | stream => exact Nat.le_of_eq hCount.symm
      | nan | machine => exact Nat.le_refl _
    | _ => cases hRead

end

-- ---------------------------------------------------------------------------
-- The same in worlds that are the same
-- ---------------------------------------------------------------------------

/-- A machine that a party may look at is bound only to names that it may look up. -/
theorem World.Fits.any_seen {w : World} (hFits : w.Fits owners) {m : MachineRef}
    (hm : isOpenTo me (owners.machine m) = true) :
    (owners.seen me w.bound).any (fun e => e.2 == m) = w.bound.any fun e => e.2 == m := by
  rw [Bool.eq_iff_iff, List.any_eq_true, List.any_eq_true]
  refine ⟨fun ⟨e, he, hBound⟩ => ⟨e, (List.mem_filter.mp he).1, hBound⟩,
    fun ⟨e, he, hBound⟩ => ⟨e, List.mem_filter.mpr ⟨he, ?_⟩, hBound⟩⟩
  show isOpenTo me (owners.bound e.1) = true
  cases hOwner : owners.bound e.1 with
  | none => rfl
  | some party =>
    have hOwned := hFits e he party hOwner
    rwa [← hOwned, beq_iff_eq.mp hBound]

namespace World.Agrees

variable {w w' : World}

/-- A world agrees with itself, if its names are bound as they should be. -/
theorem refl (owners : Owners ι) (me : ι) {w : World} (hFits : w.Fits owners) :
    w.Agrees owners me w where
  toSameFor := .refl owners me w
  length := rfl
  active := rfl
  nans := rfl
  streamCount := rfl
  log := List.forall₂_same.mpr fun _ _ => ⟨rfl, rfl⟩
  fits := hFits
  fits' := hFits

variable (h : w.Agrees owners me w')
include h

/-- Agreement has no direction, unlike being the same later on. -/
theorem symm : w'.Agrees owners me w where
  grows := Nat.le_of_eq h.length
  machine m hm := (h.machine m hm).symm
  declared m hm := (h.declared m (h.length ▸ hm)).symm
  bound := h.bound.symm
  pinned m hm := (h.pinned m hm).symm
  held id hId := (h.held id hId).symm
  steppers id hId := (h.steppers id hId).symm
  streams id hId := (h.streams id hId).symm
  length := h.length.symm
  active := h.active.symm
  nans := h.nans.symm
  streamCount := h.streamCount.symm
  log := h.log.flip.imp fun _ _ hSame => ⟨hSame.event.symm, hSame.machines.symm⟩
  fits := h.fits'
  fits' := h.fits

/-- As many things have been made in both, those of the others included. -/
theorem supply : w'.supply = w.supply := by
  funext kind
  cases kind with
  | nan => exact h.nans
  | stream => exact h.streamCount
  | machine => exact h.length

/-- The states of machines that are open to a party are the same. -/
theorem state {s : StateRef} (hs : isOpenTo me (owners.machine s.machine) = true) :
    w'.state s = w.state s := by
  rw [World.state, h.machine _ hs, World.state]

/-- Such a machine is in the same state. -/
theorem current? {m : MachineRef} (hm : isOpenTo me (owners.machine m) = true) :
    w'.current? m = w.current? m := by
  rw [World.current?, h.machine m hm, World.current?]

theorem declares {s : StateRef} (hs : isOpenTo me (owners.machine s.machine) = true) :
    w'.declares s = w.declares s := by
  rw [World.declares, h.machine _ hs, World.declares]

/-- A machine that a party may look at is bound only to names that it may look up. -/

theorem alive {m : MachineRef} (hm : isOpenTo me (owners.machine m) = true) :
    w'.alive m = w.alive m := by
  rw [World.alive, ← h.fits'.any_seen hm, h.bound, h.fits.any_seen hm, h.pinned m hm, h.active,
    World.alive]

theorem whileAlive {s : StateRef} (hs : isOpenTo me (owners.machine s.machine) = true) {α : Type}
    (a : α) : w'.whileAlive s a = w.whileAlive s a := by
  rw [World.whileAlive, h.alive hs, h.state hs, World.whileAlive]

/-- A change of a machine that the party may look at, made in both worlds. -/
theorem modifyMachine {m : MachineRef} (hm : isOpenTo me (owners.machine m) = true)
    (f : Machine → Machine) : (w.modifyMachine m f).Agrees owners me (w'.modifyMachine m f) := by
  have hLength :
      (w'.modifyMachine m f).machines.length = (w.modifyMachine m f).machines.length := by
    rw [length_modifyMachine, length_modifyMachine, h.length]
  have hSame (ref : MachineRef) (hRef : isOpenTo me (owners.machine ref) = true) :
      (w'.modifyMachine m f).machine ref = (w.modifyMachine m f).machine ref := by
    rw [machine_modifyMachine, machine_modifyMachine, h.length, h.machine ref hRef, h.machine m hm]
  refine
    { h with
      length := hLength
      grows := Nat.le_of_eq hLength.symm
      machine := hSame
      declared := fun ref hRef => ?_ }
  by_cases hOther : m = ref
  · rw [hSame ref (hOther ▸ hm)]
  · rw [length_modifyMachine] at hRef
    rw [machine_modifyMachine_ne _ f hOther, machine_modifyMachine_ne _ f hOther,
      h.declared ref hRef]

/-- Whatever is logged in both is the same for the party, and so are the names that it may look up.
-/
theorem emit (event : Event) : (w.emit event).Agrees owners me (w'.emit event) :=
  { h with
    log := by
      rw [World.emit, World.emit, Array.toList_push, Array.toList_push]
      exact List.rel_append h.log (.cons ⟨rfl, h.bound⟩ .nil) }

/-! What is written. -/

/-- Values that mention no machine of others are written alike. -/
theorem sameFor_texts {values : List Value} (hOpen : w.Discloses owners me values) :
    w.refText.SameFor w'.refText .identity values := by
  refine sameFor_alike (fun v hv r hr => ?_) fun _ _ _ _ m _ => by rw [h.length]; rfl
  cases r with
  | state s =>
    refine shownAlike_state ?_
    rcases Nat.lt_or_ge s.machine w.machines.length with hBuilt | hBeyond
    · exact h.declared s.machine hBuilt
    · rw [machine_of_le hBeyond, machine_of_le (h.length ▸ hBeyond)]
  | machine m =>
    have hSame : w'.machine m = w.machine m := h.machine m (hOpen v hv m hr)
    exact shownAlike_machine (by rw [hSame]) (by rw [hSame])
  | _ => trivial

theorem plain {v : Value} (hOpen : w.Discloses owners me [v]) : w'.plain v = w.plain v :=
  Value.plain_congr (h.sameFor_texts hOpen v List.mem_cons_self)

/-- Failures whose messages mention no machine of others are the same. -/
theorem fault {cause : Cause} (hOpen : w.Discloses owners me cause.values) :
    w'.fault cause = w.fault cause := by
  have hMessage := Cause.message_rename (h.sameFor_texts hOpen)
  rw [Cause.rename_identity] at hMessage
  exact congrArg (Fault.mk cause) hMessage

/-- A party is told the same of what it may look at. -/
theorem answer {β : Type} {q : Query β} (hWithin : q.within owners me = true)
    (hOpen : w.Discloses owners me ((Primitive.look q).written w)) : q.answer w' = q.answer w := by
  -- every question but the text of a value is about a thing that is open to the party
  cases q with
  | write x =>
    have hText := Writing.text_rename (h.sameFor_texts hOpen)
    rw [Writing.rename_identity] at hText
    exact congrArg Except.ok hText
  | bound id =>
    have hSeen := congrArg (Bindings.get? · id) h.bound
    simp only [Owners.seen,
      Bindings.get?_only (P := fun id => isOpenTo me (owners.bound id)) hWithin] at hSeen
    exact congrArg Except.ok hSeen
  | held id => exact congrArg Except.ok (h.held id hWithin)
  | stepper id => exact congrArg Except.ok (h.steppers id hWithin)
  | alive m => exact congrArg Except.ok (h.alive hWithin)
  | current m | previous m | history m | notes m | done m | strict m | states m | table m
  | resolve m v => simp only [Query.answer, h.current? hWithin, h.machine m hWithin]
  | name s | actions s _ | rules s | visitCount s => simp only [Query.answer, h.state hWithin]
  | latest s slot | slots s slot =>
    simp only [Query.answer, World.latest, World.slots, h.state hWithin, h.machine _ hWithin,
      h.whileAlive hWithin]

/-! What is changed. -/

/-- Assigning to a slot comes to the same in both worlds. -/
theorem assign {s : StateRef} (hs : isOpenTo me (owners.machine s.machine) = true) (slot : Slot)
    (v : Value) :
    (w'.update (w'.assign s slot v)).1 = (w.update (w.assign s slot v)).1 ∧
      (w.update (w.assign s slot v)).2.Agrees owners me (w'.update (w'.assign s slot v)).2 := by
  unfold World.assign World.whileAlive
  rw [h.state hs, h.alive hs]
  split
  · exact ⟨rfl, h⟩
  · split
    · exact ⟨rfl, h.modifyMachine hs _⟩
    · exact ⟨rfl, h⟩

/-- Writing to the current state of a machine that is open to the party. -/
theorem assignCurrent {m : MachineRef} (hm : isOpenTo me (owners.machine m) = true) (slot : Slot)
    (v : Value) :
    (w'.update (w'.assignCurrent m slot v)).1 = (w.update (w.assignCurrent m slot v)).1 ∧
      (w.update (w.assignCurrent m slot v)).2.Agrees owners me
        (w'.update (w'.assignCurrent m slot v)).2 := by
  unfold World.assignCurrent
  rw [h.current? hm]
  cases hCurrent : w.current? m with
  | none => exact ⟨rfl, h⟩
  | some s =>
    obtain ⟨index, -, rfl⟩ := Option.map_eq_some_iff.mp hCurrent
    exact h.assign hm slot v

/-- Entering a state, whose name is recorded. -/
theorem commit {s : StateRef} (hs : isOpenTo me (owners.machine s.machine) = true)
    (hOpen : (w.commit s).Discloses owners me [(w.state s).name]) :
    (w.commit s).Agrees owners me (w'.commit s) := by
  unfold World.commit at hOpen ⊢
  rw [h.declares hs]
  split
  · rename_i hDeclares
    rw [if_pos hDeclares] at hOpen
    let enter (w : World) : World := w.modifyMachine s.machine fun m => m.enter s.index
    have hEntered : (enter w).Agrees owners me (enter w') := h.modifyMachine hs _
    -- the name of the state is recorded after it has been entered, and entering leaves it
    have hName : ((enter w).state s).name = (w.state s).name := by
      refine Machine.nameOf_of_declared ?_ s.index
      rw [machine_modifyMachine]
      split
      · exact Machine.declared_enter _ _
      · rfl
    have hText : (enter w').plain ((enter w).state s).name =
        (enter w).plain ((enter w).state s).name := by
      rw [hName]
      exact hEntered.plain hOpen.of_emit
    show (enter w |>.record _ (.entered ((enter w).plain ((enter w).state s).name) _)).Agrees owners
      me (enter w' |>.record _ (.entered ((enter w').plain ((enter w').state s).name) _))
    rw [hEntered.state hs, hText]
    exact hEntered.emit _
  · exact h

/-- A new stream has the same number in both. -/
theorem stream (items : List Value) :
    (w'.streams.add items).1 = (w.streams.add items).1 ∧
      ({ w with streams := (w.streams.add items).2 } : World).Agrees owners me
        { w' with streams := (w'.streams.add items).2 } := by
  refine ⟨congrArg Value.stream h.streamCount,
    { h with streams := fun id hId => ?_, streamCount := ?_ }⟩
  · show (w'.streams.left ++ [items])[id]? = (w.streams.left ++ [items])[id]?
    rw [List.getElem?_append, List.getElem?_append, h.streamCount, h.streams id hId]
  · show (w'.streams.left ++ [items]).length = (w.streams.left ++ [items]).length
    rw [List.length_append, List.length_append, h.streamCount]

/-- The same machine is added to both. -/
theorem build (m : Machine) :
    ({ w with machines := w.machines ++ [m] } : World).Agrees owners me
      { w' with machines := w'.machines ++ [m] } := by
  have hLength : (w'.machines ++ [m]).length = (w.machines ++ [m]).length := by
    rw [List.length_append, List.length_append, h.length]
  refine
    { h with
      length := hLength
      grows := Nat.le_of_eq hLength.symm
      machine := fun ref hRef => ?_
      declared := fun ref hRef => ?_ }
  · show (w'.machines ++ [m])[ref]?.getD default = (w.machines ++ [m])[ref]?.getD default
    rw [machine_concat, machine_concat, h.length, h.machine ref hRef]
  · -- tables are the same in any case, also of machines of others
    show ((w'.machines ++ [m])[ref]?.getD default).declared =
      ((w.machines ++ [m])[ref]?.getD default).declared
    rw [machine_concat, machine_concat, h.length]
    split
    · rfl
    · rename_i hOld
      have hRef : ref < (w.machines ++ [m]).length := hRef
      rw [List.length_append, List.length_singleton] at hRef
      exact h.declared ref (Nat.lt_of_le_of_ne (Nat.le_of_lt_succ hRef) hOld)

/-- Building a machine from a table that takes items only from streams of the party. -/
theorem construct {table : Value}
    (hTakes : (readTable w.machines.length table).TakesOwn owners me w.streams) :
    (w'.construct table).1 = (w.construct table).1 ∧
      (w.construct table).2.Agrees owners me (w'.construct table).2 := by
  obtain ⟨hAnswer, hCount, hOwn⟩ := hTakes.same w'.streams h.streamCount h.streams
  simp only [World.construct, h.length]
  -- both worlds have built as many machines, so the table is read for the same number
  generalize (readTable w.machines.length table).result w.streams = taken at *
  generalize (readTable w.machines.length table).result w'.streams = taken' at *
  obtain ⟨answer, t⟩ := taken
  obtain ⟨answer', t'⟩ := taken'
  obtain rfl : answer' = answer := hAnswer
  have hTaken : ({ w with streams := t } : World).Agrees owners me { w' with streams := t' } :=
    { h with streams := hOwn, streamCount := hCount }
  cases answer' with
  | error cause => exact ⟨rfl, hTaken⟩
  | ok m => exact ⟨rfl, (hTaken.build m).emit _⟩

/-- Bookkeeping under names of the party. What it records mentions no machine of others. -/
theorem keep {b : Bookkeeping} (hWithin : b.within owners me = true)
    (hOpen : (b.apply w).Discloses owners me ((Primitive.keep b).written w)) :
    (b.apply w).Agrees owners me (b.apply w') := by
  -- a name is bound to a machine of the party that has the name
  have hFits {m : MachineRef} {id : String} {b : Bindings MachineRef}
      (hb : ∀ e ∈ b, ∀ party ∈ owners.bound e.1, owners.machine e.2 = some party)
      (hId : owners.bound id = some me) (hm : owners.machine m = some me) :
      ∀ e ∈ b.insert id m, ∀ party ∈ owners.bound e.1, owners.machine e.2 = some party := by
    refine List.forall_mem_cons.mpr
      ⟨fun party hParty => ?_, fun e he => hb e (List.mem_filter.mp he).1⟩
    rw [hId] at hParty
    exact hm.trans hParty
  cases b with
  | bind id m =>
    obtain ⟨hId, hm⟩ := of_decide_eq_true hWithin
    exact
      { h with
        bound := by
          simp only [Bookkeeping.apply, Owners.seen]
          rw [Bindings.only_insert _ (isOpenTo_of_eq hId),
            Bindings.only_insert _ (isOpenTo_of_eq hId)]
          exact congrArg (Bindings.insert · id m) h.bound
        fits := hFits h.fits hId hm
        fits' := hFits h.fits' hId hm }
  | unbind id =>
    exact
      { h with
        bound := by
          simp only [Bookkeeping.apply, Owners.seen, Bindings.only_erase]
          exact congrArg (Bindings.erase · id) h.bound
        fits := fun e he => h.fits e (List.mem_filter.mp he).1
        fits' := fun e he => h.fits' e (List.mem_filter.mp he).1 }
  | hold id s => exact { h with held := Bindings.get?_insert_of_agree h.held id s }
  | openStepper id m inputs =>
    refine { h with pinned := fun ref hRef => ?_, steppers := ?_ }
    · show (m :: w'.pinned).contains ref = (m :: w.pinned).contains ref
      rw [List.contains_cons, List.contains_cons, h.pinned ref hRef]
    · exact Bindings.get?_insert_of_agree h.steppers id _
  | setPhase id phase =>
    have hSame := h.steppers id (isOpenTo_of_eq (of_decide_eq_true hWithin))
    rw [Bookkeeping.apply, Bookkeeping.apply, hSame]
    cases w.steppers.get? id with
    | none => exact h
    | some s => exact { h with steppers := Bindings.get?_insert_of_agree h.steppers id _ }
  | activate m => exact { h with active := congrArg (m :: ·) h.active }
  | release => exact { h with active := congrArg List.tail h.active }
  | switching m source target =>
    -- the names are written before they are logged, and logging shows nothing of its own
    have hShown : w.Discloses owners me [source, target] := World.Discloses.of_emit hOpen
    have hSource := h.plain (hShown.mono (List.cons_subset_cons source (List.nil_subset [target])))
    have hTarget := h.plain (hShown.mono (List.subset_cons_self source [target]))
    show (w.record m (.switching (w.plain source) (w.plain target))).Agrees owners me
      (w'.record m (.switching (w'.plain source) (w'.plain target)))
    rw [hSource, hTarget]
    exact h.emit _
  | noTransition m source =>
    have hSource : w'.plain source = w.plain source := h.plain (World.Discloses.of_emit hOpen)
    show (w.record m (.noTransition (w.plain source))).Agrees owners me
      (w'.record m (.noTransition (w'.plain source)))
    rw [hSource]
    exact h.emit _
  | performed label outcome => exact h.emit _

/-- What is done on behalf of the party is answered alike, and leaves worlds that agree. -/
theorem effect {β : Type} {p : Primitive β} (hApart : p.KeepsApart owners me w) :
    (p.effect w').1 = (p.effect w).1 ∧ (p.effect w).2.Agrees owners me (p.effect w').2 := by
  obtain ⟨hWithin, hTakes, hWritten, -⟩ := hApart
  -- who changes something looks at it first, so all that belongs to the party is open to it
  cases p with
  | fail cause => exact ⟨rfl, h⟩
  | look q => exact ⟨h.answer hWithin hWritten, h⟩
  | construct table => exact h.construct hTakes
  | commit s => exact ⟨rfl, h.commit (isOpenTo_of_eq (of_decide_eq_true hWithin)) hWritten⟩
  | reset m =>
    exact ⟨rfl, (h.modifyMachine (isOpenTo_of_eq (of_decide_eq_true hWithin)) Machine.reset).emit _⟩
  | assign s slot v => exact h.assign (isOpenTo_of_eq (of_decide_eq_true hWithin)) slot v
  | assignCurrent m slot v =>
    exact h.assignCurrent (isOpenTo_of_eq (of_decide_eq_true hWithin)) slot v
  | adjust m a => exact ⟨rfl, h.modifyMachine (isOpenTo_of_eq (of_decide_eq_true hWithin)) a.apply⟩
  | keep b => exact ⟨rfl, h.keep hWithin hWritten⟩
  | read r =>
    obtain ⟨hAnswer, hCount, hOwn⟩ := hTakes.same w'.streams h.streamCount h.streams
    exact ⟨hAnswer, { h with streams := hOwn, streamCount := hCount }⟩
  | nan =>
    refine ⟨?_, { h with nans := congrArg Nat.succ h.nans }⟩
    exact congrArg (fun tag => Except.ok (Value.nan tag)) h.nans
  | stream items =>
    obtain ⟨hAnswer, hAfter⟩ := h.stream items
    exact ⟨congrArg Except.ok hAnswer, hAfter⟩

end World.Agrees

/-- **What is done on behalf of a party comes to the same in worlds that are the same for it,** with
the messages of failures. -/
theorem Primitive.KeepsApart.agrees {β : Type} {p : Primitive β} {w w' : World}
    (hApart : p.KeepsApart owners me w) (h : w.Agrees owners me w') :
    p.outcome w' = p.outcome w ∧ (p.effect w).2.Agrees owners me (p.effect w').2 := by
  obtain ⟨hAnswer, hAfter⟩ := h.effect hApart
  refine ⟨?_, hAfter⟩
  rw [Primitive.outcome, hAnswer, Primitive.outcome]
  cases hFails : (p.effect w).1 with
  | ok b => exact (rfl : (Except.ok b : Except Fault β) = .ok b)
  | error cause => exact congrArg Except.error (h.fault (hApart.failures cause hFails))

-- ---------------------------------------------------------------------------
-- Executions
-- ---------------------------------------------------------------------------

namespace Config

/-- Whether everything that happens in an execution keeps apart, in the bodies of functions as
well. -/
def KeepsApart (handler : Handler) (owners : Owners ι) (me : ι) {α : Type} (c : Config α) : Prop :=
  ∀ c', c.Leads handler c' → ∀ (β : Type) (p : Primitive β) (next : Except Fault β → Program α),
    c'.program = .perform p next → p.KeepsApart owners me c'.world

variable {handler : Handler} {α : Type} {c c' : Config α}

/-- Whoever keeps apart from the beginning on keeps apart from any moment on. -/
theorem KeepsApart.of_leads (h : c.KeepsApart handler owners me) (hLeads : c.Leads handler c') :
    c'.KeepsApart handler owners me :=
  fun c'' hc'' => h c'' (hLeads.trans hc'')

/-- A step takes nothing away that has been made. -/
theorem KeepsApart.supply_le_next (h : c.KeepsApart handler owners me)
    (hNext : c.next .standard handler = some c') : c.world.supply ≤ c'.world.supply := by
  rcases world_of_next hNext with hWorld | ⟨f, args, hWorld⟩ | ⟨β, p, next, hProgram, hWorld⟩
  · rw [hWorld]
  · rw [hWorld]
    exact le_refl _
  · rw [hWorld]
    exact (h c (.refl c) β p next hProgram).supply_le

/-- Nor do any number of steps. -/
theorem KeepsApart.supply_le (h : c.KeepsApart handler owners me) (hLeads : c.Leads handler c') :
    c.world.supply ≤ c'.world.supply := by
  obtain ⟨n, rfl⟩ := hLeads
  induction n with
  | zero => exact le_refl _
  | succ n ih =>
    rw [after_succ]
    cases hNext : (c.after .standard handler n).next .standard handler with
    | none => exact ih
    | some c' => exact ih.trans ((h.of_leads ⟨n, rfl⟩).supply_le_next hNext)

/-- **An execution that keeps apart leaves the others what they may look at.** What it makes belongs
to the party. -/
theorem KeepsApart.sameFor (h : c.KeepsApart handler owners me) (hLeads : c.Leads handler c')
    (hMakes : c.world.Makes owners me c'.world) (hOther : other ≠ me) :
    c.world.SameFor owners other c'.world := by
  obtain ⟨n, rfl⟩ := hLeads
  induction n with
  | zero => exact .refl _ _ _
  | succ n ih =>
    have hHere := h.of_leads ⟨n, rfl⟩
    rw [after_succ] at hMakes ⊢
    cases hNext : (c.after .standard handler n).next .standard handler with
    | none =>
      rw [hNext] at hMakes
      exact ih hMakes
    | some c' =>
      rw [hNext] at hMakes
      -- what has been made by then belongs to the party as well
      have hBefore := h.supply_le ⟨n, rfl⟩
      have hSame := ih (hMakes.mono (le_refl _) (hHere.supply_le_next hNext))
      show c.world.SameFor owners other c'.world
      rcases world_of_next hNext with hWorld | ⟨f, args, hWorld⟩ | ⟨β, p, next, hProgram, hWorld⟩
      · rw [hWorld]
        exact hSame
      · rw [hWorld]
        exact { hSame with }
      · have hStep := h _ ⟨n, rfl⟩ β p next hProgram
        have hMade := hMakes.mono hBefore (le_refl _)
        simp only [Option.getD_some, hWorld] at hMade
        rw [hWorld]
        exact hSame.trans (hStep.sameFor hMade hOther)

/-- **An execution that keeps apart is the same in worlds that are the same for its party.** -/
theorem agrees_after (hApart : c.KeepsApart handler owners me) (hProgram : c'.program = c.program)
    (h : c.world.Agrees owners me c'.world) (n : Nat) :
    (c'.after .standard handler n).program = (c.after .standard handler n).program ∧
      (c.after .standard handler n).world.Agrees owners me
        (c'.after .standard handler n).world := by
  induction n generalizing c c' with
  | zero => exact ⟨hProgram, h⟩
  | succ n ih =>
    obtain ⟨p, w⟩ := c
    obtain ⟨p', w'⟩ := c'
    obtain rfl : p' = p := hProgram
    cases p' with
    | ret a =>
      rw [after_ret, after_ret]
      exact ⟨rfl, h⟩
    -- the outcome is the same, so both executions go on alike
    | perform q next =>
      obtain ⟨hOutcome, hAfter⟩ := (hApart _ (.refl _) _ q next rfl).agrees h
      exact ih (hApart.of_leads (.of_next rfl)) (congrArg next hOutcome) hAfter
    | call f args next => exact ih (hApart.of_leads (.of_next rfl)) rfl (h.emit _)
    | loop body next => exact ih (hApart.of_leads (.of_next rfl)) rfl h

end Config

end RuleMachine
