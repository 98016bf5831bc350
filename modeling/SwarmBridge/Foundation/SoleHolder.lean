import Mathlib.Logic.Function.Basic

namespace SwarmBridge
namespace Foundation

/-!
# Families with at most one holder

Mutual exclusion in its plainest form: a family of optional values, one for each
index, of which at most one is present.  It stays so when the only index that may
hold a value is given another one.
-/

variable {ι α : Type*}

/-- At most one index holds a value. -/
def Sole (family : ι -> Option α) : Prop :=
  ∀ first second, (family first).isSome = true -> (family second).isSome = true -> first = second

theorem Sole.others {family : ι -> Option α} (sole : Sole family) {index : ι}
    (holds : (family index).isSome = true) : ∀ other, other ≠ index -> family other = none := by
  intro other different
  by_contra present
  exact different (sole other index (Option.isSome_iff_ne_none.mpr present) holds)

variable [DecidableEq ι]

/-- When nobody else holds, the family stays sole whatever the index is given. -/
theorem sole_update {family : ι -> Option α} {index : ι} (value : Option α)
    (others : ∀ other, other ≠ index -> family other = none) :
    Sole (Function.update family index value) := by
  have holder : ∀ other, (Function.update family index value other).isSome = true ->
      other = index := by
    intro other present
    by_contra different
    rw [Function.update_of_ne different, others other different] at present
    cases present
  intro first second firstHolds secondHolds
  rw [holder first firstHolds, holder second secondHolds]

end Foundation
end SwarmBridge
