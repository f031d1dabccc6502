import Mathlib.Order.Hom.Basic
import RuleMachine.Value.Basic

/-!
# New numbers

NaNs, streams and machines are told apart by numbers, which they get in the order in which they are
made. A renaming gives them other numbers, in the same order. Two executions that make the same
things, between which one of them makes others as well, differ by such a renaming.

What has not been made yet has no number that could matter. So a renaming is fixed up to what there
is, and goes on from there as it has to: the next thing that is made on one side corresponds to the
next one on the other.

* `Renaming.Inside`, `Renaming.Extends`: what is fixed, and what may be chosen later.
* `Renaming.Inside.onward`: a renaming under which what is made next corresponds.
* `Renumbered`: lists under new numbers.
-/

namespace RuleMachine

/-- What is told apart by numbers. -/
inductive Numbered where
  | nan
  | stream
  | machine
deriving DecidableEq, Repr

/-- How many of each kind there are. -/
abbrev Supply := Numbered → Nat

/-- New numbers for what was made, in the same order. -/
abbrev Renaming := Numbered → Nat ↪o Nat

namespace Renaming

/-- Everything keeps its number. -/
def identity : Renaming := fun _ => RelEmbedding.refl _

/-- Whether what there is keeps its number. -/
def Keeps (ρ : Renaming) (supply : Supply) : Prop := ∀ kind, ∀ n < supply kind, ρ kind n = n

/-- Whether the numbers of what there was are numbers of what there is. -/
structure Inside (ρ : Renaming) (was is : Supply) : Prop where
  grows : was ≤ is
  lt : ∀ kind, ∀ n < was kind, ρ kind n < is kind

/-- Whether another renaming gives the same numbers to what there was, and to what is still to come
none of those that there are. -/
structure Extends (ρ : Renaming) (was is : Supply) (ρ' : Renaming) : Prop where
  same : ∀ kind, ∀ n < was kind, ρ' kind n = ρ kind n
  beyond : ∀ kind, ∀ n, was kind ≤ n → is kind ≤ ρ' kind n

/-- Whether what is made next after what there was corresponds to what is made next after what there
is, up to some last number. -/
def Shifts (ρ : Renaming) (was is last : Supply) : Prop :=
  ∀ kind k, was kind + k < last kind → ρ kind (was kind + k) = is kind + k

variable {ρ ρ' : Renaming} {was is was' is' last : Supply}

/-- The numbers of what there was are numbers of what there is, if nothing went. -/
theorem inside_identity (h : was ≤ is) : identity.Inside was is where
  grows := h
  lt kind _ hn := Nat.lt_of_lt_of_le hn (h kind)

/-- More may have been made of what there is. -/
theorem Inside.mono (h : ρ.Inside was is) (hGrows : is ≤ is') : ρ.Inside was is' where
  grows := h.grows.trans hGrows
  lt kind n hn := Nat.lt_of_lt_of_le (h.lt kind n hn) (hGrows kind)

/-- A renaming that leaves out what was made later leaves out what was made earlier as well. -/
theorem Extends.mono (h : ρ.Extends was is' ρ') (hGrows : is ≤ is') : ρ.Extends was is ρ' where
  same := h.same
  beyond kind n hn := Nat.le_trans (hGrows kind) (h.beyond kind n hn)

/-- What a renaming does beyond the numbers of what there was can be chosen anew, so that whatever
is made next corresponds. -/
def Inside.onward (h : ρ.Inside was is) : Renaming := fun kind =>
  OrderEmbedding.ofStrictMono
    (fun n => if n < was kind then ρ kind n else is kind + (n - was kind)) (by
      intro a b hab
      have hInside := h.lt kind
      dsimp only
      split <;> split
      · exact (ρ kind).strictMono hab
      · have := hInside a ‹_›
        omega
      · omega
      · omega)

/-- What there was keeps the number that it had. -/
theorem Inside.onward_of_lt (h : ρ.Inside was is) {kind : Numbered} {n : Nat}
    (hn : n < was kind) : h.onward kind n = ρ kind n := if_pos hn

/-- What is made next follows on what there is in the other world. -/
theorem Inside.onward_of_le (h : ρ.Inside was is) {kind : Numbered} {n : Nat}
    (hn : was kind ≤ n) : h.onward kind n = is kind + (n - was kind) := if_neg (Nat.not_lt.mpr hn)

/-- So from there on numbers differ by a constant. -/
theorem Inside.onward_shifts (h : ρ.Inside was is) (last : Supply) :
    h.onward.Shifts was is last := by
  intro kind k _
  rw [h.onward_of_le (Nat.le_add_right _ _), Nat.add_sub_cancel_left]

/-- And nothing new meets anything that was there. -/
theorem Inside.extends_onward (h : ρ.Inside was is) : ρ.Extends was is h.onward where
  same _ _ hn := h.onward_of_lt hn
  beyond kind n hn := by
    rw [h.onward_of_le hn]
    exact Nat.le_add_right _ _

/-- Nothing is renamed if nothing is made in between. -/
theorem onward_identity_of_eq (h : was ≤ is) {kind : Numbered} (hSame : was kind = is kind)
    (n : Nat) : (inside_identity h).onward kind n = n := by
  by_cases hn : n < was kind
  · exact (inside_identity h).onward_of_lt hn
  · rw [(inside_identity h).onward_of_le (Nat.not_lt.mp hn)]
    omega

/-- What extends a renaming that was chosen anew extends the renaming that there was before. -/
theorem Inside.extends_of_onward (h : ρ.Inside was is) (hGrows : was ≤ was') (hGrows' : is ≤ is')
    (hExtends : h.onward.Extends was' is' ρ') :
    ρ.Extends was is ρ' ∧ ρ'.Shifts was is was' := by
  have hKept := h.extends_onward
  refine ⟨⟨fun kind n hn => ?_, fun kind n hn => ?_⟩, fun kind k hk => ?_⟩
  · rw [hExtends.same kind n (Nat.lt_of_lt_of_le hn (hGrows kind)), hKept.same kind n hn]
  · by_cases hNew : n < was' kind
    · rw [hExtends.same kind n hNew]
      exact hKept.beyond kind n hn
    · exact Nat.le_trans (hGrows' kind) (hExtends.beyond kind n (Nat.not_lt.mp hNew))
  · rw [hExtends.same kind _ hk]
    exact h.onward_shifts was' kind k hk

/-- If the next numbers correspond, those that were given before are numbers of what there is. -/
theorem Inside.onward_inside (h : ρ.Inside was is) (hGrows : was ≤ was')
    (hNext : ∀ kind, h.onward kind (was' kind) = is' kind) : h.onward.Inside was' is' := by
  have hBetween (kind : Numbered) : is kind ≤ is' kind := by
    rw [← hNext kind]
    exact h.extends_onward.beyond kind _ (hGrows kind)
  refine ⟨fun kind => ?_, fun kind n hn => ?_⟩
  · have hWithin : was kind ≤ is kind := h.grows kind
    have hMade : was kind ≤ was' kind := hGrows kind
    -- as many things are made in both, and there were no more before
    have hLast := hNext kind
    rw [h.onward_of_le hMade] at hLast
    show was' kind ≤ is' kind
    omega
  · rw [← hNext kind]
    exact (h.onward kind).strictMono hn

end Renaming

-- ---------------------------------------------------------------------------
-- Lists under new numbers
-- ---------------------------------------------------------------------------

/-- Whether a list has the items of another one under new numbers, with each of them changed in some
way. It may have others in between. As long as there are no more than `last` items, the next ones
correspond as well. -/
structure Renumbered {α β : Type} (new : Nat ↪o Nat) (last : Nat) (f : α → β) (items : List α)
    (others : List β) : Prop where
  get : ∀ n, others[new n]? = items[n]?.map f
  next : ∀ k, items.length + k < last → new (items.length + k) = others.length + k

namespace Renumbered

variable {α β : Type} {new : Nat ↪o Nat} {last : Nat} {f : α → β} {items : List α}
  {others : List β} (h : Renumbered new last f items others)
include h

/-- The numbers that are in use correspond to those that are in use. -/
theorem lt_iff (n : Nat) : new n < others.length ↔ n < items.length := by
  have hGet := h.get n
  rw [← not_iff_not, Nat.not_lt, Nat.not_lt, ← List.getElem?_eq_none_iff,
    ← List.getElem?_eq_none_iff, hGet, Option.map_eq_none_iff]

/-- What is added to both corresponds. -/
theorem append (a : α) (hNew : new items.length = others.length) :
    Renumbered new last f (items ++ [a]) (others ++ [f a]) where
  get n := by
    -- an old number, the new one, or one beyond it
    rcases Nat.lt_trichotomy n items.length with hOld | rfl | hBeyond
    · rw [List.getElem?_append_left ((h.lt_iff n).mpr hOld), List.getElem?_append_left hOld, h.get]
    · rw [hNew, List.getElem?_concat_length, List.getElem?_concat_length]
      rfl
    · have hBeyond' : others.length < new n := hNew ▸ new.strictMono hBeyond
      rw [List.getElem?_eq_none (by simpa using Nat.succ_le_of_lt hBeyond'),
        List.getElem?_eq_none (by simpa using Nat.succ_le_of_lt hBeyond)]
      rfl
  next k hk := by
    simp only [List.length_append, List.length_singleton, Nat.add_assoc] at hk ⊢
    exact h.next (1 + k) hk

/-- Others may be added that do not correspond to any item, if the numbers of what is still to come
are beyond theirs. -/
theorem skip (more : List β) (hBeyond : ∀ n, items.length ≤ n → (others ++ more).length ≤ new n) :
    Renumbered new items.length f items (others ++ more) where
  get n := by
    rcases Nat.lt_or_ge n items.length with hOld | hNew
    · rw [List.getElem?_append_left ((h.lt_iff n).mpr hOld), h.get]
    · rw [List.getElem?_eq_none (hBeyond n hNew), List.getElem?_eq_none hNew]
      rfl
  next k hk := absurd hk (Nat.not_lt.mpr (Nat.le_add_right _ _))

/-- Changes of one item that come to the same change both lists alike. -/
theorem modify (n : Nat) {g : α → α} {g' : β → β} (hg : ∀ a, g' (f a) = f (g a)) :
    Renumbered new last f (items.modify n g) (others.modify (new n) g') where
  get i := by
    -- different numbers stay different, so the same item is changed
    simp only [List.getElem?_modify, new.injective.eq_iff, h.get]
    cases items[i]? with
    | none => rfl
    | some a =>
      refine congrArg some ?_
      split
      · exact hg a
      · rfl
  next k hk := by
    rw [List.length_modify] at hk ⊢
    rw [List.length_modify]
    exact h.next k hk

end Renumbered

end RuleMachine
