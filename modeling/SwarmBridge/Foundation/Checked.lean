import Mathlib.Data.List.Forall2
import Mathlib.Data.List.Nodup

namespace SwarmBridge
namespace Foundation

/-!
# Checks in sequence

A reader made of checks stops at the first one that fails.  Its successful runs are
those in which every check passes, so what it accepts can be said without its order:
one fact for each check, and for a loop one fact for each item.
-/

universe u

variable {ε κ : Type*} {α β : Type u}

/-- Go on if the condition holds. -/
def ensure (condition : Prop) [Decidable condition] (failure : ε) : Except ε Unit :=
  if condition then .ok () else .error failure

/-- Two lists that match entry by entry have matching entries at each index. -/
theorem exists_getElem?_of_forall₂ {relation : α -> β -> Prop} {items : List α} {results : List β}
    (matched : List.Forall₂ relation items results) {i : ℕ} {item : α} (here : items[i]? = some item) :
    ∃ result, results[i]? = some result ∧ relation item result := by
  induction matched generalizing i with
  | nil => cases here
  | @cons first result items results related matched ih =>
      cases i with
      | zero =>
          cases here
          exact ⟨result, rfl, related⟩
      | succ i => exact ih here

/-- A loop that reads one item after the other, and knows the keys read so far. -/
def readFresh (read : List κ -> α -> Except ε β) (key : β -> κ) :
    List κ -> List α -> Except ε (List β)
  | _, [] => .ok []
  | seen, item :: rest => do
      let result ← read seen item
      let results ← readFresh read key (key result :: seen) rest
      pure (result :: results)

end Foundation
end SwarmBridge
