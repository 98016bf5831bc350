import Mathlib.Algebra.Order.Group.Multiset
import Mathlib.Logic.Function.Basic

namespace SwarmBridge
namespace Foundation

/-!
# Items in places

A system that only hands items from one place to the next neither loses nor
copies one.  What each place contains is a multiset.  An item is located when one
place contains it, once, and no other place does; moving items between two places
keeps every located item located and every absent item absent.
-/

variable {Place Item : Type*} [DecidableEq Item]

/-- Exactly one place contains the item, and it contains it once. -/
def Located [DecidableEq Place] (contents : Place -> Multiset Item) (item : Item) : Prop :=
  ∃ place, ∀ other, (contents other).count item = if other = place then 1 else 0

/-- No place contains the item. -/
def Absent (contents : Place -> Multiset Item) (item : Item) : Prop :=
  ∀ place, (contents place).count item = 0

/-- Some items go from one place to another; the rest stays where it is. -/
structure Moves (before after : Place -> Multiset Item) (origin target : Place)
    (moved : Multiset Item) : Prop where
  different : origin ≠ target
  taken : before origin = after origin + moved
  added : after target = before target + moved
  frame : ∀ other, other ≠ origin -> other ≠ target -> after other = before other

namespace Moves

variable {before after : Place -> Multiset Item} {origin target : Place} {moved : Multiset Item}
  {item : Item}

/-- Moving no copy of an item changes nothing for it. -/
theorem count_of_unmoved (moves : Moves before after origin target moved)
    (unmoved : moved.count item = 0) (place : Place) :
    (after place).count item = (before place).count item := by
  by_cases atOrigin : place = origin
  · rw [atOrigin, moves.taken, Multiset.count_add, unmoved, add_zero]
  · by_cases atTarget : place = target
    · rw [atTarget, moves.added, Multiset.count_add, unmoved, add_zero]
    · rw [moves.frame place atOrigin atTarget]

theorem absent (moves : Moves before after origin target moved) (nowhere : Absent before item) :
    Absent after item := by
  have unmoved : moved.count item = 0 := by
    have none := nowhere origin
    rw [moves.taken, Multiset.count_add] at none
    omega
  intro place
  rw [moves.count_of_unmoved unmoved place]
  exact nowhere place

theorem located [DecidableEq Place] (moves : Moves before after origin target moved)
    (located : Located before item) : Located after item := by
  rcases located with ⟨place, counts⟩
  by_cases unmoved : moved.count item = 0
  · refine ⟨place, fun other => ?_⟩
    rw [moves.count_of_unmoved unmoved other]
    exact counts other
  · -- the one copy is among the moved items, so it was at the origin
    have source := counts origin
    rw [moves.taken, Multiset.count_add] at source
    have here : origin = place := by
      by_contra elsewhere
      rw [if_neg elsewhere] at source
      omega
    subst here
    rw [if_pos rfl] at source
    refine ⟨target, fun other => ?_⟩
    by_cases atTarget : other = target
    · subst atTarget
      rw [if_pos rfl, moves.added, Multiset.count_add, counts other, if_neg moves.different.symm]
      omega
    · rw [if_neg atTarget]
      by_cases atOrigin : other = origin
      · rw [atOrigin]
        omega
      · rw [moves.frame other atOrigin atTarget, counts other, if_neg atOrigin]

end Moves

/-- No item is lost or copied between the two states. -/
structure Rearranges [DecidableEq Place] (before after : Place -> Multiset Item) : Prop where
  located : ∀ item, Located before item -> Located after item
  absent : ∀ item, Absent before item -> Absent after item

section Rearrangements

variable [DecidableEq Place] {before middle after : Place -> Multiset Item}

theorem Rearranges.of_eq (same : after = before) : Rearranges before after :=
  same ▸ ⟨fun _ located => located, fun _ nowhere => nowhere⟩

theorem Rearranges.trans (first : Rearranges before middle) (second : Rearranges middle after) :
    Rearranges before after where
  located := fun item located => second.located item (first.located item located)
  absent := fun item nowhere => second.absent item (first.absent item nowhere)

theorem Moves.rearranges {origin target : Place} {moved : Multiset Item}
    (moves : Moves before after origin target moved) : Rearranges before after where
  located := fun _ => moves.located
  absent := fun _ => moves.absent

omit [DecidableEq Item] in
/-- The state after a move, when the rest at the origin is known. -/
theorem moves_update {origin target : Place} {moved rest : Multiset Item}
    (different : origin ≠ target) (split : before origin = rest + moved) :
    Moves before
      (Function.update (Function.update before origin rest) target (before target + moved))
      origin target moved where
  different := different
  taken := by rw [Function.update_of_ne different, Function.update_self, split]
  added := Function.update_self _ _ _
  frame := fun other notOrigin notTarget => by
    rw [Function.update_of_ne notTarget, Function.update_of_ne notOrigin]

end Rearrangements

/-- A new item is put into one place. -/
theorem located_of_added [DecidableEq Place] {before after : Place -> Multiset Item} {item : Item}
    {target : Place} (nowhere : Absent before item) (added : after target = before target + {item})
    (frame : ∀ other, other ≠ target -> after other = before other) : Located after item := by
  refine ⟨target, fun other => ?_⟩
  by_cases atTarget : other = target
  · rw [if_pos atTarget, atTarget, added, Multiset.count_add, nowhere target,
      Multiset.count_singleton_self]
  · rw [if_neg atTarget, frame other atTarget]
    exact nowhere other

/-! ## Losing items

A system that may also lose items still does not copy them: an item stays in at most
one place. -/

/-- At most one place contains the item, and at most once. -/
def Scarce [DecidableEq Place] (contents : Place -> Multiset Item) (item : Item) : Prop :=
  Located contents item ∨ Absent contents item

/-- Items may be lost between the two states, but none is copied or comes up. -/
structure Thins [DecidableEq Place] (before after : Place -> Multiset Item) : Prop where
  scarce : ∀ item, Scarce before item -> Scarce after item
  absent : ∀ item, Absent before item -> Absent after item

section Losses

variable [DecidableEq Place] {before middle after : Place -> Multiset Item} {item : Item}

theorem Rearranges.thins (rearranges : Rearranges before after) : Thins before after where
  scarce := fun item scarce =>
    scarce.imp (rearranges.located item) (rearranges.absent item)
  absent := rearranges.absent

theorem Thins.trans (first : Thins before middle) (second : Thins middle after) :
    Thins before after where
  scarce := fun item scarce => second.scarce item (first.scarce item scarce)
  absent := fun item nowhere => second.absent item (first.absent item nowhere)

/-- What is left of every place was there before. -/
theorem Thins.of_le (le : ∀ place, after place ≤ before place) : Thins before after where
  scarce := by
    rintro item (⟨place, counts⟩ | nowhere)
    · have bound : ∀ other, (after other).count item ≤ if other = place then 1 else 0 := by
        intro other
        rw [← counts other]
        exact Multiset.count_le_of_le item (le other)
      by_cases left : (after place).count item = 0
      · refine .inr fun other => ?_
        by_cases here : other = place
        · rw [here, left]
        · have none := bound other
          rw [if_neg here] at none
          exact Nat.le_zero.mp none
      · refine .inl ⟨place, fun other => ?_⟩
        have most := bound other
        split_ifs at most ⊢ with here
        · rw [here] at most ⊢
          omega
        · exact Nat.le_zero.mp most
    · exact .inr fun place =>
        Nat.le_zero.mp ((Multiset.count_le_of_le item (le place)).trans (nowhere place).le)
  absent := fun item nowhere place =>
    Nat.le_zero.mp ((Multiset.count_le_of_le item (le place)).trans (nowhere place).le)

/-- No place contains a scarce item twice. -/
theorem Scarce.count_le_one {contents : Place -> Multiset Item} (scarce : Scarce contents item)
    (place : Place) : (contents place).count item ≤ 1 := by
  rcases scarce with ⟨home, counts⟩ | nowhere
  · rw [counts place]
    split <;> omega
  · rw [nowhere place]
    exact Nat.zero_le 1

/-- A scarce item that one place contains is in no other place. -/
theorem Scarce.apart {contents : Place -> Multiset Item} (scarce : Scarce contents item)
    {first second : Place} (inFirst : item ∈ contents first) (inSecond : item ∈ contents second) :
    first = second := by
  have positive := Multiset.count_pos.mpr inFirst
  have positive' := Multiset.count_pos.mpr inSecond
  rcases scarce with ⟨home, counts⟩ | nowhere
  · rw [counts] at positive positive'
    have here : first = home := by
      by_contra elsewhere
      rw [if_neg elsewhere] at positive
      omega
    have here' : second = home := by
      by_contra elsewhere
      rw [if_neg elsewhere] at positive'
      omega
    rw [here, here']
  · rw [nowhere first] at positive
    omega

end Losses

end Foundation
end SwarmBridge
