import RuleMachine.Proofs.Within

/-!
# Values that mention no machine

A value may contain references to machines and to states. One that does not is detached: its text is
the same at any time.

* `Value.detached`: values without references, as a check.
* `Value.plain_detached`: the text of a detached value.
-/

namespace RuleMachine

namespace Value

mutual

/-- Whether a value mentions no machine and no state. -/
def detached (v : Value) : Bool :=
  match v with
  | state _ | machine _ => false
  | list items | tuple items | set items => allDetached items
  | map entries => entriesDetached entries
  | _ => true

def allDetached (items : List Value) : Bool :=
  match items with
  | [] => true
  | v :: rest => detached v && allDetached rest

def entriesDetached (entries : List (Value × Value)) : Bool :=
  match entries with
  | [] => true
  | (key, v) :: rest => detached key && detached v && entriesDetached rest

end

/-- Several values are detached if each of them is. -/
theorem allDetached_iff {items : List Value} :
    allDetached items = true ↔ ∀ v ∈ items, v.detached = true := by
  induction items with
  | nil => simp [allDetached]
  | cons v rest ih => simp [allDetached, ih]

mutual

/-- Detached values are those that mention nothing. -/
theorem detached_iff (v : Value) : v.detached = true ↔ v.mentions = [] := by
  cases v with
  | list items | tuple items | set items => exact allDetached_iff_mentions items
  | map entries => exact entriesDetached_iff_mentions entries
  | state s | machine m => simp [detached, mentions]
  | _ => exact ⟨fun _ => rfl, fun _ => rfl⟩

/-- A list of detached values mentions nothing at all. -/
theorem allDetached_iff_mentions (items : List Value) :
    allDetached items = true ↔ allMentions items = [] := by
  match items with
  | [] => exact ⟨fun _ => rfl, fun _ => rfl⟩
  | v :: rest =>
    rw [allDetached, Bool.and_eq_true, detached_iff v, allDetached_iff_mentions rest, allMentions,
      List.append_eq_nil_iff]

theorem entriesDetached_iff_mentions (entries : List (Value × Value)) :
    entriesDetached entries = true ↔ entryMentions entries = [] := by
  match entries with
  | [] => exact ⟨fun _ => rfl, fun _ => rfl⟩
  | (key, v) :: rest =>
    rw [entriesDetached, Bool.and_eq_true, Bool.and_eq_true, detached_iff key, detached_iff v,
      entriesDetached_iff_mentions rest, entryMentions, List.append_eq_nil_iff,
      List.append_eq_nil_iff]

end

/-- Whatever is known, a detached value mentions nothing else. -/
theorem within_of_detached {v : Value} (h : v.detached = true) {known : Value → Prop} :
    v.Within known := by
  intro r hr
  rw [(detached_iff v).mp h] at hr
  exact absurd hr List.not_mem_nil

/-- If nothing is known, only detached values mention nothing else. -/
theorem detached_of_within {v : Value} (h : v.Within fun _ => False) : v.detached = true :=
  (detached_iff v).mpr (List.eq_nil_iff_forall_not_mem.mpr h)

/-- A detached value is written alike however references are written. -/
theorem plain_detached {v : Value} (h : v.detached = true) (refs refs' : RefText) :
    v.plain refs' = v.plain refs := by
  refine plain_congr ?_
  rw [(detached_iff v).mp h]
  exact RefText.sameOn_nil

end Value

end RuleMachine
