import SwarmBridge.Foundation.Fairness
import SwarmBridge.Foundation.Network
import Mathlib.Data.Nat.Nth

namespace SwarmBridge
namespace Foundation

/-!
# What a part of a machine sees of an infinite run

Some steps of a machine are steps of one of its parts, and the others leave the part as it
is.  A run in which the part steps again and again is an infinite run of the part, with the
other steps left out.  The run of the part is as fair as the whole one, so a progress law of
the part alone holds of it wherever it is put.
-/

namespace Machine

variable {State Action Local Move : Type*} {whole : Machine State Action}
  {part : Machine Local Move} {allow : State -> Action -> Prop} {permitted : Local -> Move -> Prop}
  {origin : State}

/-- A part of the machine in an infinite run: what it sees of a state, and the moves that it
makes with the steps. -/
structure Component (trace : whole.Trace allow origin) (part : Machine Local Move)
    (permitted : Local -> Move -> Prop) where
  view : State -> Local
  move : ℕ -> Option Move
  stays : ∀ n, move n = none -> view (trace.state (n + 1)) = view (trace.state n)
  moves : ∀ n action, move n = some action -> permitted (view (trace.state n)) action ∧
    part.step (view (trace.state n)) action = some (view (trace.state (n + 1)))
  endless : ∀ n, ∃ m, n ≤ m ∧ move m ≠ none

namespace Component

variable {trace : whole.Trace allow origin} (component : Component trace part permitted)

/-- The part moves at the position. -/
def Moves (n : ℕ) : Prop := (component.move n).isSome = true

instance : DecidablePred component.Moves :=
  fun n => inferInstanceAs (Decidable ((component.move n).isSome = true))

theorem infinite : (Set.ofPred component.Moves).Infinite := by
  apply Set.infinite_of_forall_exists_gt
  intro n
  rcases component.endless (n + 1) with ⟨m, after, moves⟩
  exact ⟨m, Option.isSome_iff_ne_none.mpr moves, after⟩

/-- The position at which the part makes its next move but `k`. -/
noncomputable def turn (k : ℕ) : ℕ := Nat.nth component.Moves k

theorem turn_moves (k : ℕ) : component.Moves (component.turn k) :=
  Nat.nth_mem_of_infinite component.infinite k

theorem turn_le_turn {j k : ℕ} : component.turn j ≤ component.turn k ↔ j ≤ k :=
  Nat.nth_le_nth component.infinite

/-- Each position at which the part moves is one of its turns. -/
theorem exists_turn {n : ℕ} (moves : component.Moves n) : ∃ k, component.turn k = n :=
  ⟨Nat.count component.Moves n, Nat.nth_count moves⟩

/-- Between two positions without a move the part sees nothing. -/
theorem view_eq {n m : ℕ} (after : n ≤ m) (quiet : ∀ k, n ≤ k -> k < m -> ¬ component.Moves k) :
    component.view (trace.state m) = component.view (trace.state n) := by
  induction m, after using Nat.le_induction with
  | base => rfl
  | succ m after ih =>
      have silent : component.move m = none :=
        Option.not_isSome_iff_eq_none.mp (quiet m after (Nat.lt_succ_self m))
      rw [component.stays m silent]
      exact ih fun k first last => quiet k first (Nat.lt_succ_of_lt last)

/-- Until its next turn the part sees the result of its move. -/
theorem view_turn_succ (k : ℕ) : component.view (trace.state (component.turn (k + 1))) =
    component.view (trace.state (component.turn k + 1)) := by
  have next : component.turn k < component.turn (k + 1) :=
    Nat.nth_strictMono component.infinite (Nat.lt_succ_self k)
  apply component.view_eq next
  intro m first last moves
  rcases component.exists_turn moves with ⟨j, rfl⟩
  have above : ¬ component.turn j ≤ component.turn k := by omega
  have below : ¬ component.turn (k + 1) ≤ component.turn j := by omega
  rw [component.turn_le_turn] at above below
  omega

/-- The run of the part. -/
noncomputable def run : part.Trace permitted (component.view origin) where
  state := fun k => component.view (trace.state (component.turn k))
  action := fun k => (component.move (component.turn k)).get (component.turn_moves k)
  begins := by
    have quiet : ∀ m, 0 ≤ m -> m < component.turn 0 -> ¬ component.Moves m := by
      intro m _ before moves
      rcases component.exists_turn moves with ⟨j, rfl⟩
      exact absurd (component.turn_le_turn.mpr (Nat.zero_le j)) (not_le.mpr before)
    rw [component.view_eq (Nat.zero_le _) quiet, trace.begins]
  allowed := fun k => (component.moves _ _ (Option.some_get _).symm).1
  steps := fun k => by
    rw [component.view_turn_succ]
    exact (component.moves _ _ (Option.some_get _).symm).2

theorem run_action (k : ℕ) : component.move (component.turn k) = some (component.run.action k) :=
  (Option.some_get _).symm

/-- A move of the part is one of its run. -/
theorem exists_turn_of_move {n : ℕ} {action : Move} (taken : component.move n = some action) :
    ∃ k, component.turn k = n ∧ component.run.action k = action := by
  have moves : component.Moves n := by
    rw [Moves, taken]
    rfl
  rcases component.exists_turn moves with ⟨k, rfl⟩
  refine ⟨k, rfl, Option.some.inj ?_⟩
  rw [← component.run_action, taken]

/-- At every position the part sees a state of its run, that of its next turn. -/
theorem exists_run_state (n : ℕ) : ∃ k, n ≤ component.turn k ∧
    component.run.state k = component.view (trace.state n) := by
  have after : n ≤ component.turn (Nat.count component.Moves n) :=
    Nat.le_nth_count component.infinite n
  refine ⟨Nat.count component.Moves n, after, component.view_eq after ?_⟩
  intro k first last moves
  have later : component.turn (Nat.count component.Moves n) ≤
      component.turn (Nat.count component.Moves k) :=
    component.turn_le_turn.mpr (Nat.count_monotone _ first)
  rw [show component.turn (Nat.count component.Moves k) = k from Nat.nth_count moves] at later
  omega

/-- What the run of the part leads to comes about in the whole run. -/
theorem leads_to {P Q : Local -> Prop} {n : ℕ}
    (leads : ∀ k, P (component.run.state k) -> ∃ j, k ≤ j ∧ Q (component.run.state j))
    (now : P (component.view (trace.state n))) :
    ∃ m, n ≤ m ∧ Q (component.view (trace.state m)) := by
  rcases component.exists_run_state n with ⟨k, after, same⟩
  rcases leads k (same ▸ now) with ⟨j, later, goal⟩
  exact ⟨component.turn j, after.trans (component.turn_le_turn.mpr later), goal⟩

/-- A move that is made, or found disabled, again and again. -/
theorem fair {action : Move} (fair : ∀ n, ∃ m, n ≤ m ∧ (component.move m = some action ∨
    part.step (component.view (trace.state m)) action = none)) : component.run.Fair action := by
  intro k
  rcases fair (component.turn k) with ⟨m, after, taken | disabled⟩
  · rcases component.exists_turn_of_move taken with ⟨j, rfl, same⟩
    exact ⟨j, component.turn_le_turn.mp after, .inl same⟩
  · rcases component.exists_run_state m with ⟨j, later, same⟩
    refine ⟨j, component.turn_le_turn.mp (after.trans later), .inr ?_⟩
    rw [same, disabled]

/-- A move that is made again and again if it is enabled again and again. -/
theorem strongFair {action : Move}
    (strong : (∀ n, ∃ m, n ≤ m ∧ part.step (component.view (trace.state m)) action ≠ none) ->
      ∀ n, ∃ m, n ≤ m ∧ component.move m = some action) : component.run.StrongFair action := by
  intro enabled k
  have again : ∀ n, ∃ m, n ≤ m ∧ part.step (component.view (trace.state m)) action ≠ none := by
    intro n
    rcases component.exists_run_state n with ⟨first, after, -⟩
    rcases enabled first with ⟨j, later, enabled⟩
    exact ⟨component.turn j, after.trans (component.turn_le_turn.mpr later), enabled⟩
  rcases strong again (component.turn k) with ⟨m, after, taken⟩
  rcases component.exists_turn_of_move taken with ⟨j, rfl, same⟩
  exact ⟨j, component.turn_le_turn.mp after, same⟩

end Component

end Machine

/-! ## The machines of a network -/

namespace Network

variable {Node State Action Link Packet : Type*} [DecidableEq Node] [DecidableEq Link]
  {N : Network Node State Action Link Packet} {own : Node -> Action -> Prop}
  {allow : Node -> State -> Action -> Prop}
  {condition : NetworkState Node State Link Packet -> NetworkAction Node Action Link -> Prop}
  {origin : NetworkState Node State Link Packet}

omit [DecidableEq Link] in
/-- What a machine does with a step of the network. -/
def does (N : Network Node State Action Link Packet) (node : Node)
    (s : NetworkState Node State Link Packet) : NetworkAction Node Action Link -> Option Action
  | .act mover action => if mover = node then some action else none
  | .receive link =>
      if N.target link = node then (s.wires link).head?.bind (N.receives link) else none
  | .lose _ _ => none

/-- A machine takes the step that it does. -/
theorem Stepped.does {s t : NetworkState Node State Link Packet} {a : NetworkAction Node Action Link}
    (moves : Stepped N s a t) (allowed : N.Steps own allow s a) (node : Node) :
    (N.does node s a = none -> t.nodes node = s.nodes node) ∧
      ∀ action, N.does node s a = some action -> allow node (s.nodes node) action ∧
        (N.machine node).step (s.nodes node) action = some (t.nodes node) := by
  cases moves with
  | @acted mover taken after reached =>
      by_cases here : mover = node
      · subst here
        rw [moved_nodes_self, Network.does, if_pos rfl]
        refine ⟨nofun, fun action same => ?_⟩
        cases same
        exact ⟨allowed.2, reached⟩
      · rw [moved_nodes_of_ne s after (Ne.symm here), Network.does, if_neg here]
        exact ⟨fun _ => rfl, nofun⟩
  | @received link packet rest taken after front takes reached =>
      have head : packet ∈ (s.wires link).head? := by rw [front]; rfl
      by_cases here : N.target link = node
      · subst here
        rw [moved_nodes_self, Network.does, if_pos rfl, front]
        refine ⟨fun impossible => ?_, fun action same => ?_⟩
        · cases takes.symm.trans impossible
        · cases takes.symm.trans same
          exact ⟨allowed packet head taken takes, reached⟩
      · rw [moved_nodes_of_ne _ after (Ne.symm here), Network.does, if_neg here]
        exact ⟨fun _ => rfl, nofun⟩
  | lost link index => exact ⟨fun _ => rfl, nofun⟩

/-- A machine in an infinite run of the network. -/
def component (trace : N.system.Trace condition origin)
    (steps : ∀ s a, condition s a -> N.Steps own allow s a) (node : Node)
    (endless : ∀ n, ∃ m, n ≤ m ∧ N.does node (trace.state m) (trace.action m) ≠ none) :
    Machine.Component trace (N.machine node) (allow node) where
  view := fun s => s.nodes node
  move := fun n => N.does node (trace.state n) (trace.action n)
  stays := fun n => ((stepped (trace.steps n)).does (steps _ _ (trace.allowed n)) node).1
  moves := fun n => ((stepped (trace.steps n)).does (steps _ _ (trace.allowed n)) node).2
  endless := endless

variable {trace : N.system.Trace condition origin}
  {steps : ∀ s a, condition s a -> N.Steps own allow s a} {node : Node} {action : Action}

variable {endless : ∀ n, ∃ m, n ≤ m ∧ N.does node (trace.state m) (trace.action m) ≠ none}

theorem does_act {n : ℕ} (taken : trace.action n = .act node action) :
    (component trace steps node endless).move n = some action := by
  change N.does node (trace.state n) (trace.action n) = some action
  rw [taken, does, if_pos rfl]

theorem component_fair (fair : trace.Fair (.act node action)) :
    (component trace steps node endless).run.Fair action := by
  apply Machine.Component.fair
  intro n
  rcases fair n with ⟨m, after, taken | disabled⟩
  · exact ⟨m, after, .inl (does_act taken)⟩
  · exact ⟨m, after, .inr (act_eq_none.mp disabled)⟩

theorem component_strongFair (strong : trace.StrongFair (.act node action)) :
    (component trace steps node endless).run.StrongFair action := by
  apply Machine.Component.strongFair
  intro enabled
  have again : ∀ n, ∃ m, n ≤ m ∧ N.system.step (trace.state m) (.act node action) ≠ none := by
    intro n
    rcases enabled n with ⟨m, after, enabled⟩
    exact ⟨m, after, fun disabled => enabled (act_eq_none.mp disabled)⟩
  intro n
  rcases strong again n with ⟨m, after, taken⟩
  exact ⟨m, after, does_act taken⟩

/-- A machine whose state changes again and again steps again and again. -/
theorem does_endlessly (steps : ∀ s a, condition s a -> N.Steps own allow s a)
    (changes : ∀ n, ∃ m, n ≤ m ∧ (trace.state m).nodes node ≠ (trace.state n).nodes node) :
    ∀ n, ∃ m, n ≤ m ∧ N.does node (trace.state m) (trace.action m) ≠ none := by
  intro n
  by_contra never
  have still : ∀ m, n ≤ m -> (trace.state m).nodes node = (trace.state n).nodes node := by
    intro m after
    induction m, after using Nat.le_induction with
    | base => rfl
    | succ m after ih =>
        have silent : N.does node (trace.state m) (trace.action m) = none := by
          by_contra moves
          exact never ⟨m, after, moves⟩
        exact (((stepped (trace.steps m)).does (steps _ _ (trace.allowed m)) node).1 silent).trans ih
  rcases changes n with ⟨m, after, changed⟩
  exact changed (still m after)

end Network

end Foundation
end SwarmBridge
