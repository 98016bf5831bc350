import SwarmBridge.Foundation.Ordered
import Mathlib.Logic.Function.Basic

namespace SwarmBridge
namespace Foundation

/-!
# A waiting line with a detour

Elements arrive one after the other and pass through a line: `incoming`, `queue`,
`hand`, `delivered`.  From both ends of the line an element may be diverted into a
cache; the cache is swapped out into a batch, and the elements of a batch are put
back at the end of the queue.  Elements may get lost on the way.

`Line.Ordered` says that everything in the line is in the order of arrival, and the
rules below say when a move keeps it.  Three moves need a side condition, because
they bring two lists together: the diversion of the element in hand, its passing,
and the return of an element from a batch.
-/

/-- The places of a line, and all that arrived so far. -/
structure Line (α ι : Type*) where
  arrived : List α
  delivered : List α
  hand : List α
  queue : List α
  incoming : List α
  cached : List α
  batch : ι -> List α
  /-- The element in hand can no longer be diverted. -/
  past : Bool

namespace Line

variable {α ι : Type*} {r : α -> α -> Prop} {line : Line α ι}

/-- Every place is in the order of `r`, and so are any two places whose elements
can meet again. -/
structure Ordered (r : α -> α -> Prop) (line : Line α ι) : Prop where
  arrivals : line.arrived.Pairwise r
  through : (line.delivered ++ (line.hand ++ (line.queue ++ line.incoming))).Pairwise r
  cache : (line.delivered ++ (line.cached ++ line.incoming)).Pairwise r
  batches : ∀ index, (line.delivered ++ (line.batch index ++ line.incoming)).Pairwise r
  passing : line.past = true -> ∀ held ∈ line.hand, (∀ waits ∈ line.cached, r held waits) ∧
    ∀ index, ∀ waits ∈ line.batch index, r held waits
  knownLine : line.delivered ++ (line.hand ++ (line.queue ++ line.incoming)) ⊆ line.arrived
  knownCache : line.cached ⊆ line.arrived
  knownBatch : ∀ index, line.batch index ⊆ line.arrived

namespace Ordered

/-! ## Facts about an ordered line -/

theorem delivered_before (ordered : line.Ordered r) {left waits : α}
    (isLeft : left ∈ line.delivered)
    (isWaiting : waits ∈ line.hand ++ (line.queue ++ line.incoming)) : r left waits :=
  ordered_across ordered.through isLeft isWaiting

theorem delivered_before_hand (ordered : line.Ordered r) {left held : α}
    (isLeft : left ∈ line.delivered) (isHeld : held ∈ line.hand) : r left held :=
  ordered.delivered_before isLeft (List.mem_append_left _ isHeld)

theorem hand_before (ordered : line.Ordered r) {held waits : α} (isHeld : held ∈ line.hand)
    (isWaiting : waits ∈ line.queue ++ line.incoming) : r held waits :=
  ordered_across (List.pairwise_append.mp ordered.through).2.1 isHeld isWaiting

theorem hand_before_incoming (ordered : line.Ordered r) {held new : α}
    (isHeld : held ∈ line.hand) (isNew : new ∈ line.incoming) : r held new :=
  ordered.hand_before isHeld (List.mem_append_right _ isNew)

theorem delivered_known (ordered : line.Ordered r) : line.delivered ⊆ line.arrived :=
  fun _ isLeft => ordered.knownLine (List.mem_append_left _ isLeft)

theorem hand_known (ordered : line.Ordered r) : line.hand ⊆ line.arrived :=
  fun _ isHeld => ordered.knownLine (List.mem_append_right _ (List.mem_append_left _ isHeld))

theorem incoming_known (ordered : line.Ordered r) : line.incoming ⊆ line.arrived :=
  fun _ isNew => ordered.knownLine
    (List.mem_append_right _ (List.mem_append_right _ (List.mem_append_right _ isNew)))

/-- What is delivered is a subsequence of what arrived. -/
theorem delivered_sublist [Std.Irrefl r] [Std.Antisymm r] (ordered : line.Ordered r) :
    line.delivered.Sublist line.arrived :=
  sublist_of_ordered (List.pairwise_append.mp ordered.through).1 ordered.arrivals
    ordered.delivered_known

/-! ## Moves that keep the order -/

theorem arrive (ordered : line.Ordered r) (free : line.incoming = []) {new : α}
    (newest : ∀ old ∈ line.arrived, r old new) :
    Ordered r { line with arrived := line.arrived ++ [new], incoming := [new] } := by
  have through := ordered.through
  have cache := ordered.cache
  have batches := ordered.batches
  have known := ordered.knownLine
  rw [free, List.append_nil] at through cache known
  simp only [free, List.append_nil] at batches
  constructor
  · exact ordered_concat ordered.arrivals newest
  · simp only [← List.append_assoc] at through known ⊢
    exact ordered_concat through fun old member => newest old (known member)
  · simp only [← List.append_assoc]
    apply ordered_concat cache
    intro old member
    rcases List.mem_append.mp member with left | waits
    · exact newest old (ordered.delivered_known left)
    · exact newest old (ordered.knownCache waits)
  · intro index
    simp only [← List.append_assoc]
    apply ordered_concat (batches index)
    intro old member
    rcases List.mem_append.mp member with left | waits
    · exact newest old (ordered.delivered_known left)
    · exact newest old (ordered.knownBatch index waits)
  · exact ordered.passing
  · simp only [← List.append_assoc] at known ⊢
    intro element member
    rcases List.mem_append.mp member with old | isNew
    · exact List.mem_append_left _ (known old)
    · exact List.mem_append_right _ isNew
  · exact fun element member => List.mem_append_left _ (ordered.knownCache member)
  · exact fun index element member => List.mem_append_left _ (ordered.knownBatch index member)

/-- The incoming element is diverted, possibly in place of cached ones. -/
theorem divertIncoming (ordered : line.Ordered r) {new : α} {cached : List α}
    (incoming : line.incoming = [new]) (diverted : cached.Sublist (line.cached ++ [new])) :
    Ordered r { line with incoming := [], cached := cached } := by
  have fromCache : ∀ element ∈ cached, element ∈ line.cached ∨ element = new := by
    intro element member
    exact (List.mem_append.mp (diverted.subset member)).imp id List.mem_singleton.mp
  constructor
  · exact ordered.arrivals
  · exact ordered.through.sublist (by simp [incoming])
  · have shrinks : (line.delivered ++ cached).Sublist
        (line.delivered ++ (line.cached ++ line.incoming)) := by
      rw [incoming]
      exact (List.Sublist.refl _).append diverted
    rw [List.append_nil]
    exact ordered.cache.sublist shrinks
  · intro index
    exact (ordered.batches index).sublist (by simp [incoming])
  · intro past held isHeld
    refine ⟨fun waits member => ?_, (ordered.passing past held isHeld).2⟩
    rcases fromCache waits member with member | rfl
    · exact (ordered.passing past held isHeld).1 waits member
    · exact ordered.hand_before_incoming isHeld (by rw [incoming]; exact List.mem_singleton_self _)
  · intro element member
    apply ordered.knownLine
    simp only [List.append_nil, List.mem_append] at member ⊢
    tauto
  · intro element member
    rcases fromCache element member with member | rfl
    · exact ordered.knownCache member
    · exact ordered.incoming_known (by rw [incoming]; exact List.mem_singleton_self _)
  · exact ordered.knownBatch

/-- The element in hand is diverted behind earlier ones. -/
theorem divertHand (ordered : line.Ordered r) {held : α} {cached : List α}
    (hand : line.hand = [held]) (unpassed : line.past = false)
    (behind : ∀ waits ∈ line.cached, r waits held)
    (diverted : cached.Sublist (line.cached ++ [held])) :
    Ordered r { line with hand := [], cached := cached } := by
  have isHeld : held ∈ line.hand := by rw [hand]; exact List.mem_singleton_self held
  constructor
  · exact ordered.arrivals
  · exact ordered.through.sublist (by simp)
  · have wider : (line.delivered ++ ((line.cached ++ [held]) ++ line.incoming)).Pairwise r := by
      simp only [List.append_assoc, List.singleton_append]
      rw [← List.append_assoc]
      apply ordered_insert
      · rw [List.append_assoc]
        exact ordered.cache
      · intro first member
        rcases List.mem_append.mp member with left | waits
        · exact ordered.delivered_before_hand left isHeld
        · exact behind first waits
      · exact fun new isNew => ordered.hand_before_incoming isHeld isNew
    exact wider.sublist ((List.Sublist.refl _).append (diverted.append (List.Sublist.refl _)))
  · exact ordered.batches
  · intro past
    rw [unpassed] at past
    cases past
  · intro element member
    apply ordered.knownLine
    simp only [List.nil_append, List.mem_append] at member ⊢
    tauto
  · intro element member
    rcases List.mem_append.mp (diverted.subset member) with member | same
    · exact ordered.knownCache member
    · rw [List.mem_singleton.mp same]
      exact ordered.hand_known isHeld
  · exact ordered.knownBatch

/-- The element in hand passes before everything cached or in a batch. -/
theorem pass (ordered : line.Ordered r)
    (before : ∀ held ∈ line.hand, (∀ waits ∈ line.cached, r held waits) ∧
      ∀ index, ∀ waits ∈ line.batch index, r held waits) :
    Ordered r { line with past := true } :=
  { ordered with passing := fun _ => before }

/-- The incoming element joins the queue, which may drop elements to make room. -/
theorem enqueue (ordered : line.Ordered r) {new : α} {dropped kept : List α}
    (incoming : line.incoming = [new]) (queue : line.queue = dropped ++ kept) :
    Ordered r { line with queue := kept ++ [new], incoming := [] } := by
  have shrinks : (line.hand ++ ((kept ++ [new]) ++ [])).Sublist
      (line.hand ++ (line.queue ++ line.incoming)) := by
    rw [incoming, queue, List.append_nil, List.append_assoc]
    exact (List.Sublist.refl _).append (List.sublist_append_right _ _)
  constructor
  · exact ordered.arrivals
  · exact ordered.through.sublist ((List.Sublist.refl _).append shrinks)
  · exact ordered.cache.sublist (by simp [incoming])
  · exact fun index => (ordered.batches index).sublist (by simp [incoming])
  · exact ordered.passing
  · exact fun element member => ordered.knownLine
      (((List.Sublist.refl _).append shrinks).subset member)
  · exact ordered.knownCache
  · exact ordered.knownBatch

/-- The element in hand has passed and is delivered. -/
theorem deliver (ordered : line.Ordered r) {held : α} (hand : line.hand = [held])
    (passed : line.past = true) :
    Ordered r { line with delivered := line.delivered ++ [held], hand := [], past := false } := by
  have isHeld : held ∈ line.hand := by rw [hand]; exact List.mem_singleton_self held
  have before := ordered.passing passed held isHeld
  have through := ordered.through
  have known := ordered.knownLine
  rw [hand] at through known
  constructor
  · exact ordered.arrivals
  · simpa using through
  · rw [List.append_assoc]
    apply ordered_insert ordered.cache
    · exact fun left isLeft => ordered.delivered_before_hand isLeft isHeld
    · intro waits member
      rcases List.mem_append.mp member with member | isNew
      · exact before.1 waits member
      · exact ordered.hand_before_incoming isHeld isNew
  · intro index
    rw [List.append_assoc]
    apply ordered_insert (ordered.batches index)
    · exact fun left isLeft => ordered.delivered_before_hand isLeft isHeld
    · intro waits member
      rcases List.mem_append.mp member with member | isNew
      · exact before.2 index waits member
      · exact ordered.hand_before_incoming isHeld isNew
  · intro past
    cases past
  · simpa using known
  · exact ordered.knownCache
  · exact ordered.knownBatch

/-- The front of the queue is taken in hand. -/
theorem dequeue (ordered : line.Ordered r) (free : line.hand = []) (unpassed : line.past = false)
    {front : α} {rest : List α} (queue : line.queue = front :: rest) :
    Ordered r { line with hand := [front], queue := rest } := by
  have through := ordered.through
  have known := ordered.knownLine
  rw [free, queue] at through known
  refine { ordered with through := by simpa using through, passing := ?_,
                        knownLine := by simpa using known }
  intro past
  rw [unpassed] at past
  cases past

variable [DecidableEq ι]

/-- The cache is swapped out into an empty batch. -/
theorem swap (ordered : line.Ordered r) (index : ι) :
    Ordered r { line with cached := [], batch := Function.update line.batch index line.cached } := by
  have batch : ∀ other, Function.update line.batch index line.cached other = line.cached ∨
      Function.update line.batch index line.cached other = line.batch other := by
    intro other
    by_cases same : other = index
    · exact .inl (same ▸ Function.update_self _ _ _)
    · exact .inr (Function.update_of_ne same _ _)
  constructor
  · exact ordered.arrivals
  · exact ordered.through
  · exact ordered.cache.sublist (by simp)
  · intro other
    dsimp only
    rcases batch other with swapped | same
    · rw [swapped]
      exact ordered.cache
    · rw [same]
      exact ordered.batches other
  · intro past held isHeld
    refine ⟨fun waits member => absurd member List.not_mem_nil, fun other waits member => ?_⟩
    rcases batch other with swapped | same
    · exact (ordered.passing past held isHeld).1 waits (swapped ▸ member)
    · exact (ordered.passing past held isHeld).2 other waits (same ▸ member)
  · exact ordered.knownLine
  · exact List.nil_subset _
  · intro other
    dsimp only
    rcases batch other with swapped | same
    · rw [swapped]
      exact ordered.knownCache
    · rw [same]
      exact ordered.knownBatch other

/-- The first element of a batch joins the queue behind earlier ones. -/
theorem requeue (ordered : line.Ordered r) {index : ι} {back : α} {rest dropped kept : List α}
    (batch : line.batch index = back :: rest) (queue : line.queue = dropped ++ kept)
    (behind : ∀ waits ∈ line.hand ++ line.queue, r waits back) :
    Ordered r { line with
      queue := kept ++ [back]
      batch := Function.update line.batch index rest } := by
  have inBatch : back ∈ line.batch index := by rw [batch]; exact List.mem_cons_self
  have shrinks : ∀ other, (Function.update line.batch index rest other).Sublist
      (line.batch other) := by
    intro other
    by_cases same : other = index
    · subst same
      rw [Function.update_self, batch]
      exact List.sublist_cons_self back rest
    · rw [Function.update_of_ne same]
  have inQueue : ∀ waits ∈ kept, waits ∈ line.queue := fun waits member => by
    rw [queue]
    exact List.mem_append_right _ member
  have beforeBack := ordered.batches index
  constructor
  · exact ordered.arrivals
  · have shrinks : ((line.delivered ++ (line.hand ++ kept)) ++ line.incoming).Sublist
        (line.delivered ++ (line.hand ++ (line.queue ++ line.incoming))) := by
      rw [List.append_assoc, List.append_assoc, queue]
      apply (List.Sublist.refl _).append
      apply (List.Sublist.refl _).append
      exact (List.sublist_append_right _ _).append (List.Sublist.refl _)
    have inserted : ((line.delivered ++ (line.hand ++ kept)) ++ back :: line.incoming).Pairwise r := by
      apply ordered_insert (ordered.through.sublist shrinks)
      · intro first member
        rcases List.mem_append.mp member with left | waits
        · exact ordered_across beforeBack left (List.mem_append_left _ inBatch)
        · apply behind
          exact (List.mem_append.mp waits).elim (List.mem_append_left _)
            fun member => List.mem_append_right _ (inQueue first member)
      · intro new isNew
        exact ordered_across (List.pairwise_append.mp beforeBack).2.1 inBatch isNew
    simpa using inserted
  · exact ordered.cache
  · intro other
    exact (ordered.batches other).sublist
      ((List.Sublist.refl _).append ((shrinks other).append (List.Sublist.refl _)))
  · intro past held isHeld
    refine ⟨(ordered.passing past held isHeld).1, fun other waits member => ?_⟩
    exact (ordered.passing past held isHeld).2 other waits ((shrinks other).subset member)
  · intro element member
    simp only [List.mem_append, List.mem_singleton] at member
    rcases member with left | held | (waits | rfl) | new
    · exact ordered.delivered_known left
    · exact ordered.hand_known held
    · exact ordered.knownLine (by simp [inQueue element waits])
    · exact ordered.knownBatch index inBatch
    · exact ordered.incoming_known new
  · exact ordered.knownCache
  · exact fun other => List.Subset.trans (shrinks other).subset (ordered.knownBatch other)

omit [DecidableEq ι] in
/-- The cache is cleared. -/
theorem clear (ordered : line.Ordered r) : Ordered r { line with cached := [] } where
  arrivals := ordered.arrivals
  through := ordered.through
  cache := ordered.cache.sublist (by simp)
  batches := ordered.batches
  passing := fun past held isHeld =>
    ⟨fun _ member => absurd member List.not_mem_nil, (ordered.passing past held isHeld).2⟩
  knownLine := ordered.knownLine
  knownCache := List.nil_subset _
  knownBatch := ordered.knownBatch

end Ordered

end Line

end Foundation
end SwarmBridge
