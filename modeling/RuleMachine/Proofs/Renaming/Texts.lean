import RuleMachine.Proofs.Renaming.Values
import RuleMachine.Value.Layout

/-!
# Texts under new numbers

The text of a value shows the texts of the machines and states that it mentions, and nothing else
that a renaming could change: no text shows a number. So a renamed value is written as the value is,
if what the one mentions is written under its new number as what the other mentions is. What is said
here of two values holds of one value that is written twice as well, as it is renamed by the
identity.

* `Value.mentions`, `RefText.SameOn`: what a text depends on.
* `Value.literal_rename`, `Value.plain_rename`, `Value.layout_rename`: the texts of values.
* `Value.plain_congr`: the same value written twice. How it is written depends on how those are
  written that it mentions.
-/

namespace RuleMachine

-- ---------------------------------------------------------------------------
-- Machines and states in values
-- ---------------------------------------------------------------------------

namespace Value

mutual

/-- The machines and the states that a value mentions. -/
def mentions (v : Value) : List Value :=
  match v with
  | state ref => [state ref]
  | machine ref => [machine ref]
  | list items | tuple items | set items => allMentions items
  | map entries => entryMentions entries
  | _ => []

def allMentions (items : List Value) : List Value :=
  match items with
  | [] => []
  | v :: rest => mentions v ++ allMentions rest

def entryMentions (entries : List (Value × Value)) : List Value :=
  match entries with
  | [] => []
  | (key, v) :: rest => mentions key ++ mentions v ++ entryMentions rest

end

/-- What is mentioned in a list is mentioned by one of the items. -/
theorem mem_allMentions {r : Value} {items : List Value} :
    r ∈ allMentions items ↔ ∃ v ∈ items, r ∈ v.mentions := by
  induction items with
  | nil => simp [allMentions]
  | cons v rest ih => simp [allMentions, ih]

theorem mem_entryMentions {r : Value} {entries : List (Value × Value)} :
    r ∈ entryMentions entries ↔ ∃ entry ∈ entries, r ∈ entry.1.mentions ∨ r ∈ entry.2.mentions := by
  induction entries with
  | nil => simp [entryMentions]
  | cons entry rest ih => simp [entryMentions, ih, or_assoc]

end Value

-- ---------------------------------------------------------------------------
-- References that are written alike
-- ---------------------------------------------------------------------------

namespace RefText

/-- How references are written under their new numbers. -/
def comap (ρ : Renaming) (refs : RefText) : RefText where
  state s := refs.state (s.rename ρ)
  machine m := refs.machine (ρ .machine m)

/-- Whether some of the machines and states are written alike. -/
structure SameOn (refs refs' : RefText) (mentioned : List Value) : Prop where
  state : ∀ s, .state s ∈ mentioned → refs'.state s = refs.state s
  machine : ∀ m, .machine m ∈ mentioned → refs'.machine m = refs.machine m

variable {refs refs' : RefText} {mentioned others : List Value}

/-- What shows fewer things has fewer ways to be written differently. -/
theorem SameOn.mono (h : refs.SameOn refs' mentioned) (hFewer : others ⊆ mentioned) :
    refs.SameOn refs' others where
  state s hs := h.state s (hFewer hs)
  machine m hm := h.machine m (hFewer hm)

theorem sameOn_nil : refs.SameOn refs' [] where
  state _ h := absurd h List.not_mem_nil
  machine _ h := absurd h List.not_mem_nil

/-- Two lists of values are written alike if each of them is. -/
theorem sameOn_append :
    refs.SameOn refs' (mentioned ++ others) ↔
      refs.SameOn refs' mentioned ∧ refs.SameOn refs' others := by
  refine ⟨fun h => ⟨h.mono (List.subset_append_left _ _), h.mono (List.subset_append_right _ _)⟩,
    fun h => ⟨fun s hs => ?_, fun m hm => ?_⟩⟩
  · exact (List.mem_append.mp hs).elim (h.1.state s) (h.2.state s)
  · exact (List.mem_append.mp hm).elim (h.1.machine m) (h.2.machine m)

end RefText

-- ---------------------------------------------------------------------------
-- Literals
-- ---------------------------------------------------------------------------

namespace Value

open RefText (sameOn_append)

variable {ρ : Renaming} {refs refs' : RefText}

mutual

/-- **The literal of a renamed value** is the literal of the value, if references are written
alike. -/
theorem literal_rename {v : Value} (h : refs.SameOn (refs'.comap ρ) v.mentions) :
    (v.rename ρ).literal refs' = v.literal refs := by
  cases v with
  | list items => rw [rename_list, literal, literals_rename h, literal]
  | tuple items => rw [rename_tuple, literal, literals_rename h, literal]
  | set items => rw [rename_set, literal, literals_rename h, literal]
  | map entries => rw [rename_map, literal, entryLiterals_rename h, literal]
  | state s => exact h.state s List.mem_cons_self
  | machine m => exact h.machine m List.mem_cons_self
  | _ => rfl

/-- The items of a container are written one by one. -/
theorem literals_rename {items : List Value}
    (h : refs.SameOn (refs'.comap ρ) (allMentions items)) :
    literals refs' (items.map (rename ρ)) = literals refs items := by
  cases items with
  | nil => rfl
  | cons v rest =>
    obtain ⟨hFirst, hRest⟩ := sameOn_append.mp h
    rw [List.map_cons, literals, literal_rename hFirst, literals_rename hRest, literals]

theorem entryLiterals_rename {entries : List (Value × Value)}
    (h : refs.SameOn (refs'.comap ρ) (entryMentions entries)) :
    entryLiterals refs' (entries.map (renamePair ρ)) = entryLiterals refs entries := by
  match entries with
  | [] => rfl
  | (key, v) :: rest =>
    obtain ⟨hEntry, hRest⟩ := sameOn_append.mp h
    obtain ⟨hKey, hValue⟩ := sameOn_append.mp hEntry
    rw [List.map_cons, renamePair, entryLiterals, literal_rename hKey, literal_rename hValue,
      entryLiterals_rename hRest, entryLiterals]

end

/-- A text is written without quotes where it stands by itself, and everything else as it is in a
container. -/
theorem plain_rename {v : Value} (h : refs.SameOn (refs'.comap ρ) v.mentions) :
    (v.rename ρ).plain refs' = v.plain refs := by
  cases v with
  | text s => rfl
  | _ => exact literal_rename h

/-- The plain text of a value depends on how those are written that it mentions. -/
theorem plain_congr {v : Value} (h : refs.SameOn refs' v.mentions) :
    v.plain refs' = v.plain refs := by
  have hSame : (v.rename .identity).plain refs' = v.plain refs := plain_rename h
  rwa [rename_identity] at hSame

end Value

section

variable {ρ : Renaming} {refs refs' : RefText}

/-- Whether the machines and states that some values mention are written alike under their new
numbers. -/
def RefText.SameFor (refs refs' : RefText) (ρ : Renaming) (values : List Value) : Prop :=
  ∀ v ∈ values, refs.SameOn (refs'.comap ρ) v.mentions

/-- The names of several states, as messages list them. -/
theorem map_plain_rename {values : List Value} (h : refs.SameFor refs' ρ values) :
    (values.map (Value.rename ρ)).map (Value.plain refs') = values.map (Value.plain refs) := by
  rw [List.map_map]
  exact List.map_congr_left fun v hv => Value.plain_rename (h v hv)

theorem map_literal_rename {values : List Value} (h : refs.SameFor refs' ρ values) :
    (values.map (Value.rename ρ)).map (Value.literal refs') = values.map (Value.literal refs) := by
  rw [List.map_map]
  exact List.map_congr_left fun v hv => Value.literal_rename (h v hv)

end

namespace Value

variable {ρ : Renaming} {refs refs' : RefText}

open RefText (sameOn_append)

-- ---------------------------------------------------------------------------
-- Layouts
-- ---------------------------------------------------------------------------

mutual

/-- How a value is written on one line of a layout, with maps sorted by key. -/
theorem sortedLiteral_rename {v : Value} (h : refs.SameOn (refs'.comap ρ) v.mentions) :
    (v.rename ρ).sortedLiteral refs' = v.sortedLiteral refs := by
  cases v with
  | list items => simp only [rename_list, sortedLiteral, sortedLiterals_rename h]
  | tuple items => simp only [rename_tuple, sortedLiteral, sortedLiterals_rename h]
  | map entries =>
    simp only [rename_map, sortedLiteral, sortedEntryLiterals_rename h, map_snd_sortKeys_rename]
  -- the members of a set stay in their order on one line
  | set items =>
    have hLiteral := literal_rename (v := .set items) h
    rw [rename_set] at hLiteral
    simpa only [rename_set, sortedLiteral] using hLiteral
  | state s => exact h.state s List.mem_cons_self
  | machine m => exact h.machine m List.mem_cons_self
  | _ => rfl

theorem sortedLiterals_rename {items : List Value}
    (h : refs.SameOn (refs'.comap ρ) (allMentions items)) :
    sortedLiterals refs' (items.map (rename ρ)) = sortedLiterals refs items := by
  cases items with
  | nil => rfl
  | cons v rest =>
    obtain ⟨hFirst, hRest⟩ := sameOn_append.mp h
    rw [List.map_cons, sortedLiterals, sortedLiteral_rename hFirst, sortedLiterals_rename hRest,
      sortedLiterals]

/-- Entries are written before they are sorted, and the order depends on the keys only. -/
theorem sortedEntryLiterals_rename {entries : List (Value × Value)}
    (h : refs.SameOn (refs'.comap ρ) (entryMentions entries)) :
    sortedEntryLiterals refs' (entries.map (renamePair ρ)) =
      (sortedEntryLiterals refs entries).map (renameKey ρ) := by
  match entries with
  | [] => rfl
  | (key, v) :: rest =>
    obtain ⟨hEntry, hRest⟩ := sameOn_append.mp h
    obtain ⟨hKey, hValue⟩ := sameOn_append.mp hEntry
    rw [List.map_cons, renamePair, sortedEntryLiterals, sortedLiteral_rename hKey,
      sortedLiteral_rename hValue, sortedEntryLiterals_rename hRest, sortedEntryLiterals,
      List.map_cons, renameKey]

end

mutual

/-- Whether a value fits on a line depends on how it is written, and if it does not fit, its parts
are laid out by themselves. -/
theorem layoutAt_rename {v : Value} (h : refs.SameOn (refs'.comap ρ) v.mentions)
    (outermost : Bool) : layoutAt refs' outermost (v.rename ρ) = layoutAt refs outermost v := by
  have hLine := sortedLiteral_rename h
  -- in each case the whole value is tried on one line first
  funext column allowance
  cases v with
  | list items =>
    simp only [rename_list] at hLine
    simp only [rename_list, layoutAt, hLine, placedItems_rename h]
  | tuple items =>
    simp only [rename_tuple] at hLine
    simp only [rename_tuple, layoutAt, hLine, placedItems_rename h, List.length_map]
  | set items =>
    simp only [rename_set] at hLine
    simp only [rename_set, layoutAt, hLine, placedMembers_rename h, map_snd_sortKeys_rename,
      List.isEmpty_map]
  | map entries =>
    simp only [rename_map] at hLine
    simp only [rename_map, layoutAt, hLine, placedEntries_rename h, map_snd_sortKeys_rename]
  | state s | machine m =>
    simp only [rename] at hLine
    simp only [rename, layoutAt, hLine]
  | _ => rfl

theorem placedItems_rename {items : List Value}
    (h : refs.SameOn (refs'.comap ρ) (allMentions items)) :
    placedItems refs' (items.map (rename ρ)) = placedItems refs items := by
  cases items with
  | nil => rfl
  | cons v rest =>
    obtain ⟨hFirst, hRest⟩ := sameOn_append.mp h
    rw [List.map_cons, placedItems, layoutAt_rename hFirst, placedItems_rename hRest, placedItems]

theorem placedMembers_rename {items : List Value}
    (h : refs.SameOn (refs'.comap ρ) (allMentions items)) :
    placedMembers refs' (items.map (rename ρ)) = (placedMembers refs items).map (renameKey ρ) := by
  cases items with
  | nil => rfl
  | cons v rest =>
    obtain ⟨hFirst, hRest⟩ := sameOn_append.mp h
    rw [List.map_cons, placedMembers, layoutAt_rename hFirst, placedMembers_rename hRest,
      placedMembers, List.map_cons, renameKey]

theorem placedEntries_rename {entries : List (Value × Value)}
    (h : refs.SameOn (refs'.comap ρ) (entryMentions entries)) :
    placedEntries refs' (entries.map (renamePair ρ)) =
      (placedEntries refs entries).map (renameKey ρ) := by
  match entries with
  | [] => rfl
  | (key, v) :: rest =>
    obtain ⟨hEntry, hRest⟩ := sameOn_append.mp h
    obtain ⟨hKey, hValue⟩ := sameOn_append.mp hEntry
    rw [List.map_cons, renamePair, placedEntries, sortedLiteral_rename hKey,
      layoutAt_rename hValue, placedEntries_rename hRest, placedEntries, List.map_cons, renameKey]

end

/-- **The layout of a renamed value** is the layout of the value, if references are written
alike. -/
theorem layout_rename {v : Value} (h : refs.SameOn (refs'.comap ρ) v.mentions) :
    (v.rename ρ).layout refs' = v.layout refs := by
  rw [layout, layoutAt_rename h, layout]

end Value

end RuleMachine
