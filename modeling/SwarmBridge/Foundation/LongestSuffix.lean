import Mathlib.Data.List.Infix

namespace SwarmBridge
namespace Foundation

/-!
# The longest suffix with a property

Dropping elements from the front of a list until the rest has a property leaves the
longest suffix that has it.  Every suffix with the property is then a suffix of the
one that is left.
-/

variable {α : Type*} {P : List α -> Prop} [DecidablePred P]

/-- Drop elements from the front until the rest has the property. -/
def longestSuffix (P : List α -> Prop) [DecidablePred P] : List α -> List α
  | [] => []
  | first :: rest => if P (first :: rest) then first :: rest else longestSuffix P rest

theorem longestSuffix_suffix (list : List α) : longestSuffix P list <:+ list := by
  induction list with
  | nil => exact List.suffix_rfl
  | cons first rest ih =>
      unfold longestSuffix
      split_ifs
      · exact List.suffix_rfl
      · exact ih.trans (List.suffix_cons first rest)

/-- What is left has the property, if the empty list does. -/
theorem longestSuffix_holds (empty : P []) (list : List α) : P (longestSuffix P list) := by
  induction list with
  | nil => exact empty
  | cons first rest ih =>
      unfold longestSuffix
      split_ifs with holds
      · exact holds
      · exact ih

/-- No suffix with the property is longer. -/
theorem longestSuffix_longest {list other : List α} (suffix : other <:+ list) (holds : P other) :
    other <:+ longestSuffix P list := by
  induction list with
  | nil => exact suffix
  | cons first rest ih =>
      unfold longestSuffix
      split_ifs with whole
      · exact suffix
      · rcases List.suffix_cons_iff.mp suffix with same | shorter
        · exact absurd (same ▸ holds) whole
        · exact ih shorter

end Foundation
end SwarmBridge
