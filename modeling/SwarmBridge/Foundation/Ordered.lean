import Mathlib.Data.List.Sort

namespace SwarmBridge
namespace Foundation

/-!
# Ordered lists that exchange elements

Several lists that are each ordered by the same relation, with elements passed
from one to another.  A list stays ordered when an element enters it between those
it has to follow and those it has to precede, and an ordered list of elements of
another ordered list is a sublist of it.
-/

variable {α : Type*} {r : α -> α -> Prop}

/-- The parts of an ordered list are ordered against each other. -/
theorem ordered_across {front back : List α} (ordered : (front ++ back).Pairwise r)
    {first second : α} (inFront : first ∈ front) (inBack : second ∈ back) : r first second :=
  (List.pairwise_append.mp ordered).2.2 first inFront second inBack

/-- An element may enter an ordered list where it belongs. -/
theorem ordered_insert {front back : List α} {entering : α}
    (ordered : (front ++ back).Pairwise r) (after : ∀ first ∈ front, r first entering)
    (before : ∀ second ∈ back, r entering second) : (front ++ entering :: back).Pairwise r := by
  rcases List.pairwise_append.mp ordered with ⟨inFront, inBack, across⟩
  apply List.pairwise_append.mpr
  refine ⟨inFront, List.pairwise_cons.mpr ⟨before, inBack⟩, ?_⟩
  intro first member second member'
  rcases List.mem_cons.mp member' with rfl | member'
  · exact after first member
  · exact across first member second member'

theorem ordered_concat {front : List α} {last : α} (ordered : front.Pairwise r)
    (after : ∀ first ∈ front, r first last) : (front ++ [last]).Pairwise r := by
  apply ordered_insert
  · rwa [List.append_nil]
  · exact after
  · intro second member
    cases member

/-- Every element of an ordered list is its last one or comes before it. -/
theorem ordered_last {list : List α} (ordered : list.Pairwise r) {element : α}
    (member : element ∈ list) :
    ∃ last ∈ list.getLast?.toList, element = last ∨ r element last := by
  rcases List.eq_nil_or_concat list with rfl | ⟨init, last, rfl⟩
  · cases member
  · rw [List.concat_eq_append] at ordered member ⊢
    refine ⟨last, by simp, ?_⟩
    rcases List.mem_append.mp member with before | same
    · exact .inr (ordered_across ordered before (List.mem_singleton_self last))
    · exact .inl (List.mem_singleton.mp same)

/-- An ordered list is a sublist of every ordered list that has its elements. -/
theorem sublist_of_ordered [Std.Irrefl r] [Std.Antisymm r] {part whole : List α}
    (ordered : part.Pairwise r) (orderedWhole : whole.Pairwise r) (subset : part ⊆ whole) :
    part.Sublist whole :=
  List.sublist_of_subperm_of_pairwise (List.subperm_of_subset ordered.nodup subset)
    ordered orderedWhole

end Foundation
end SwarmBridge
