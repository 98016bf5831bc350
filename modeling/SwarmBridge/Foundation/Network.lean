import SwarmBridge.Foundation.Machine
import Mathlib.Data.List.Infix
import Mathlib.Logic.Function.Basic

namespace SwarmBridge
namespace Foundation

/-!
# Machines joined by links

Several machines run side by side.  What one of them writes to a link arrives, in the
order of writing, at the machine at the other end, unless the link loses it; a link
neither copies nor reorders.  Nothing else joins the machines, so a run of the network
is a run of each of them, and a fact about one machine holds of it in the network.
-/

/-- Machines, and links between them.  What has been written to a link is read off the
state of the machine that writes to it, and only grows. -/
structure Network (Node State Action Link Packet : Type*) where
  machine : Node -> Machine State Action
  source : Link -> Node
  target : Link -> Node
  written : Link -> State -> List Packet
  /-- What the target does when a packet arrives; `none` if it does not take it. -/
  receives : Link -> Packet -> Option Action
  silent : ∀ link s, (machine (source link)).init s -> written link s = []
  grows : ∀ link s a t, (machine (source link)).step s a = some t ->
    written link s <+: written link t

/-- The states of the machines, the packets on their way, and, as a history that no step
inspects, those that arrived. -/
structure NetworkState (Node State Link Packet : Type*) where
  nodes : Node -> State
  wires : Link -> List Packet
  taken : Link -> List Packet

inductive NetworkAction (Node Action Link : Type*)
  /-- A machine takes a step of its own. -/
  | act (node : Node) (action : Action)
  /-- The target of a link takes the next packet. -/
  | receive (link : Link)
  /-- The link loses a packet. -/
  | lose (link : Link) (index : ℕ)
deriving DecidableEq, Repr

namespace Network

variable {Node State Action Link Packet : Type*} [DecidableEq Node] [DecidableEq Link]
  (N : Network Node State Action Link Packet)

/-- A machine has moved to this state; what it has written since is on its way. -/
def moved (s : NetworkState Node State Link Packet) (node : Node) (t : State) :
    NetworkState Node State Link Packet where
  nodes := Function.update s.nodes node t
  wires := fun link =>
    if N.source link = node then
      s.wires link ++ (N.written link t).drop (N.written link (s.nodes node)).length
    else s.wires link
  taken := s.taken

omit [DecidableEq Node] in
/-- A packet has arrived. -/
def popped (s : NetworkState Node State Link Packet) (link : Link) (packet : Packet)
    (rest : List Packet) : NetworkState Node State Link Packet where
  nodes := s.nodes
  wires := Function.update s.wires link rest
  taken := Function.update s.taken link (s.taken link ++ [packet])

/-- One step of the network; `none` when the action is not enabled. -/
def step (s : NetworkState Node State Link Packet) :
    NetworkAction Node Action Link -> Option (NetworkState Node State Link Packet)
  | .act node action => ((N.machine node).step (s.nodes node) action).map (N.moved s node)
  | .receive link =>
      match s.wires link with
      | [] => none
      | packet :: rest =>
          match N.receives link packet with
          | none => none
          | some action =>
              ((N.machine (N.target link)).step (s.nodes (N.target link)) action).map
                (N.moved (popped s link packet rest) (N.target link))
  | .lose link index =>
      some { s with wires := Function.update s.wires link ((s.wires link).eraseIdx index) }

/-- The network as one machine. -/
def system : Machine (NetworkState Node State Link Packet) (NetworkAction Node Action Link) where
  init := fun s => (∀ node, (N.machine node).init (s.nodes node)) ∧
    ∀ link, s.wires link = [] ∧ s.taken link = []
  step := N.step

/-- The steps of the machines meet their conditions: `own` for the actions that a machine
takes by itself, `allow` for all of its steps. -/
def Steps (own : Node -> Action -> Prop) (allow : Node -> State -> Action -> Prop)
    (s : NetworkState Node State Link Packet) : NetworkAction Node Action Link -> Prop
  | .act node action => own node action ∧ allow node (s.nodes node) action
  | .receive link => ∀ packet ∈ (s.wires link).head?, ∀ action ∈ N.receives link packet,
      allow (N.target link) (s.nodes (N.target link)) action
  | .lose _ _ => True

/-- The link loses nothing. -/
def Keeps (link : Link) : NetworkAction Node Action Link -> Prop
  | .lose lost _ => lost ≠ link
  | _ => True

instance (link : Link) : DecidablePred fun action : NetworkAction Node Action Link => Keeps link action
  | .act _ _ => .isTrue trivial
  | .receive _ => .isTrue trivial
  | .lose lost _ => inferInstanceAs (Decidable (lost ≠ link))

instance (own : Node -> Action -> Prop) (allow : Node -> State -> Action -> Prop)
    [∀ node action, Decidable (own node action)]
    [∀ node state action, Decidable (allow node state action)]
    (s : NetworkState Node State Link Packet) : DecidablePred (N.Steps own allow s)
  | .act node action => inferInstanceAs (Decidable (own node action ∧ _))
  | .receive link => inferInstanceAs (Decidable (∀ packet ∈ (s.wires link).head?,
      ∀ action ∈ N.receives link packet, _))
  | .lose _ _ => .isTrue trivial

variable {N} {own : Node -> Action -> Prop} {allow : Node -> State -> Action -> Prop}
  {s t : NetworkState Node State Link Packet} {a : NetworkAction Node Action Link}

/-- Everything that a step can do. -/
inductive Stepped (N : Network Node State Action Link Packet)
    (s : NetworkState Node State Link Packet) :
    NetworkAction Node Action Link -> NetworkState Node State Link Packet -> Prop
  | acted {node : Node} {action : Action} {after : State}
      (moves : (N.machine node).step (s.nodes node) action = some after) :
      Stepped N s (.act node action) (N.moved s node after)
  | received {link : Link} {packet : Packet} {rest : List Packet} {action : Action} {after : State}
      (front : s.wires link = packet :: rest) (taken : N.receives link packet = some action)
      (moves : (N.machine (N.target link)).step (s.nodes (N.target link)) action = some after) :
      Stepped N s (.receive link) (N.moved (popped s link packet rest) (N.target link) after)
  | lost (link : Link) (index : ℕ) :
      Stepped N s (.lose link index)
        { s with wires := Function.update s.wires link ((s.wires link).eraseIdx index) }

theorem stepped (moves : N.system.step s a = some t) : Stepped N s a t := by
  cases a with
  | act node action =>
      rcases Option.map_eq_some_iff.mp moves with ⟨after, reached, rfl⟩
      exact .acted reached
  | receive link =>
      simp only [system, step] at moves
      split at moves
      case h_1 => cases moves
      case h_2 packet rest front =>
        split at moves
        case h_1 => cases moves
        case h_2 action taken =>
          rcases Option.map_eq_some_iff.mp moves with ⟨after, reached, rfl⟩
          exact .received front taken reached
  | lose link index =>
      cases moves
      exact .lost link index

/-- A machine takes a step of its own. -/
theorem act_step {node : Node} {action : Action} {after : State}
    (reached : (N.machine node).step (s.nodes node) action = some after) :
    N.system.step s (.act node action) = some (N.moved s node after) :=
  congrArg (Option.map _) reached

/-- A machine of the network can take a step of its own when it can alone. -/
theorem act_eq_none {node : Node} {action : Action} :
    N.system.step s (.act node action) = none ↔
      (N.machine node).step (s.nodes node) action = none :=
  Option.map_eq_none_iff

/-- And the front packet of a link when it can take the action of that packet. -/
theorem receive_eq_none {link : Link} {packet : Packet} {rest : List Packet} {action : Action}
    (front : s.wires link = packet :: rest) (takes : N.receives link packet = some action) :
    N.system.step s (.receive link) = none ↔
      (N.machine (N.target link)).step (s.nodes (N.target link)) action = none := by
  simp only [system, step, front, takes, Option.map_eq_none_iff]

theorem receive_of_empty {link : Link} (empty : s.wires link = []) :
    N.system.step s (.receive link) = none := by
  simp only [system, step, empty]

/-! ## The machines in the network -/

omit [DecidableEq Link] in
theorem moved_nodes_self (s : NetworkState Node State Link Packet) (node : Node) (after : State) :
    (N.moved s node after).nodes node = after :=
  Function.update_self _ _ _

omit [DecidableEq Link] in
theorem moved_nodes_of_ne (s : NetworkState Node State Link Packet) {node other : Node} (after : State)
    (different : other ≠ node) : (N.moved s node after).nodes other = s.nodes other :=
  Function.update_of_ne different _ _

/-- What a step does to one machine: nothing, or a step of it. -/
theorem Stepped.node (moves : Stepped N s a t) (allowed : N.Steps own allow s a) (node : Node) :
    t.nodes node = s.nodes node ∨ ∃ action, allow node (s.nodes node) action ∧
      (N.machine node).step (s.nodes node) action = some (t.nodes node) := by
  cases moves with
  | @acted mover action after reached =>
      by_cases here : node = mover
      · subst here
        rw [moved_nodes_self]
        exact .inr ⟨action, allowed.2, reached⟩
      · exact .inl (moved_nodes_of_ne s after here)
  | @received link packet rest action after front taken reached =>
      have head : packet ∈ (s.wires link).head? := by rw [front]; rfl
      by_cases here : node = N.target link
      · subst here
        rw [moved_nodes_self]
        exact .inr ⟨action, allowed packet head action taken, reached⟩
      · exact .inl (moved_nodes_of_ne _ after here)
  | lost link index => exact .inl rfl

/-- A run of the network is a run of each machine. -/
theorem reaches_node (run : N.system.Reaches (N.Steps own allow) s) (node : Node) :
    (N.machine node).Reaches (allow node) (s.nodes node) := by
  apply run.invariant (P := fun s => (N.machine node).Reaches (allow node) (s.nodes node))
  · exact fun s initial => ⟨s.nodes node, initial.1 node, .refl⟩
  · intro s a t _ reached allowed moves
    rcases (stepped moves).node allowed node with same | ⟨action, permitted, moves⟩
    · rwa [same]
    · exact reached.next permitted moves

/-! ## The packets of a link -/

/-- What a link has been given. -/
def given (N : Network Node State Action Link Packet) (s : NetworkState Node State Link Packet)
    (link : Link) : List Packet :=
  N.written link (s.nodes (N.source link))

/-- The packets that arrived and those on their way. -/
def passed (s : NetworkState Node State Link Packet) (link : Link) : List Packet :=
  s.taken link ++ s.wires link

omit [DecidableEq Link] in
/-- A move of a machine gives new packets to the link, and they are on their way. -/
theorem given_moved (s : NetworkState Node State Link Packet) {node : Node} {action : Action}
    {after : State} (reached : (N.machine node).step (s.nodes node) action = some after)
    (link : Link) : ∃ new, N.given (N.moved s node after) link = N.given s link ++ new ∧
      passed (N.moved s node after) link = passed s link ++ new := by
  by_cases here : N.source link = node
  · subst here
    rcases N.grows link _ _ _ reached with ⟨new, whole⟩
    refine ⟨new, ?_, ?_⟩
    · rw [given, moved_nodes_self, given, whole]
    · have recent : (N.written link after).drop (N.written link (s.nodes (N.source link))).length =
          new := by
        rw [← whole, List.drop_left]
      rw [passed, moved, passed, List.append_assoc, ← recent]
      dsimp only
      rw [if_pos rfl]
  · refine ⟨[], ?_, ?_⟩
    · rw [given, moved_nodes_of_ne s after here, List.append_nil]
      rfl
    · rw [passed, moved, passed, List.append_nil]
      dsimp only
      rw [if_neg here]

omit [DecidableEq Node] in
/-- Taking the front packet changes neither. -/
theorem passed_popped {link : Link} {packet : Packet} {rest : List Packet}
    (front : s.wires link = packet :: rest) (other : Link) :
    passed (popped s link packet rest) other = passed s other := by
  unfold passed popped
  dsimp only
  by_cases here : other = link
  · subst here
    rw [Function.update_self, Function.update_self, front, List.append_assoc]
    rfl
  · rw [Function.update_of_ne here, Function.update_of_ne here]

omit [DecidableEq Link] in
/-- A move that writes nothing leaves the links as they are. -/
theorem moved_of_written {node : Node} {after : State}
    (silent : ∀ link, N.written link after = N.written link (s.nodes node)) :
    N.moved s node after = { s with nodes := Function.update s.nodes node after } := by
  have wires : (fun link => if N.source link = node then
      s.wires link ++ (N.written link after).drop (N.written link (s.nodes node)).length
      else s.wires link) = s.wires := by
    funext link
    rw [silent, List.drop_length, List.append_nil, ite_self]
  rw [moved, wires]

/-- A step gives new packets to the link, or the link loses some that were on their way. -/
theorem Stepped.link (moves : Stepped N s a t) (link : Link) :
    (∃ new, N.given t link = N.given s link ++ new ∧ passed t link = passed s link ++ new) ∨
    ¬ Keeps link a ∧ N.given t link = N.given s link ∧
      (passed t link).Sublist (passed s link) := by
  cases moves with
  | acted reached => exact .inl (given_moved s reached link)
  | @received origin packet rest action after front taken reached =>
      rcases given_moved (popped s origin packet rest) reached link with ⟨new, more, passes⟩
      exact .inl ⟨new, more, passes.trans (by rw [passed_popped front])⟩
  | lost lossy index =>
      by_cases here : link = lossy
      · subst here
        refine .inr ⟨fun keeps => keeps rfl, rfl, ?_⟩
        unfold passed
        dsimp only
        rw [Function.update_self]
        exact (List.eraseIdx_sublist _ _).append_left _
      · refine .inl ⟨[], (List.append_nil _).symm, ?_⟩
        rw [List.append_nil]
        unfold passed
        dsimp only
        rw [Function.update_of_ne here]

/-- What is on its way on a link that loses nothing stays so, and more may come, until the next
packet is taken. -/
theorem Stepped.wires (moves : Stepped N s a t) {link : Link} (waits : a ≠ .receive link)
    (keeps : Keeps link a) : s.wires link <+: t.wires link := by
  have grows : ∀ (s : NetworkState Node State Link Packet) node after,
      s.wires link <+: (N.moved s node after).wires link := by
    intro s node after
    unfold moved
    dsimp only
    split_ifs
    · exact List.prefix_append _ _
    · exact List.prefix_rfl
  cases moves with
  | acted => exact grows s _ _
  | @received origin packet rest =>
      have here : link ≠ origin := fun same => waits (same ▸ rfl)
      have same : (popped s origin packet rest).wires link = s.wires link :=
        Function.update_of_ne here _ _
      exact same ▸ grows _ _ _
  | lost lossy index =>
      have same : Function.update s.wires lossy ((s.wires lossy).eraseIdx index) link =
          s.wires link := Function.update_of_ne (Ne.symm keeps) _ _
      exact same ▸ List.prefix_rfl

/-- What has been taken stays so, and the step in which a packet is taken adds it. -/
theorem Stepped.taken (moves : Stepped N s a t) (link : Link) :
    s.taken link <+: t.taken link ∧
      (a = .receive link -> (t.taken link).length = (s.taken link).length + 1) := by
  cases moves with
  | acted => exact ⟨List.prefix_rfl, nofun⟩
  | @received origin packet rest =>
      change s.taken link <+: Function.update s.taken origin (s.taken origin ++ [packet]) link ∧
        (_ -> (Function.update s.taken origin (s.taken origin ++ [packet]) link).length = _)
      by_cases here : link = origin
      · subst here
        rw [Function.update_self]
        exact ⟨List.prefix_append _ _, fun _ => List.length_append⟩
      · rw [Function.update_of_ne here]
        refine ⟨List.prefix_rfl, ?_⟩
        rintro ⟨⟩
        exact absurd rfl here
  | lost => exact ⟨List.prefix_rfl, nofun⟩

/-- A link delivers in the order of writing, and nothing twice. -/
theorem passed_sublist {condition : NetworkState Node State Link Packet ->
      NetworkAction Node Action Link -> Prop}
    (run : N.system.Reaches condition s) (link : Link) : (passed s link).Sublist (N.given s link) := by
  apply run.invariant (P := fun s => (passed s link).Sublist (N.given s link))
  · intro s initial
    rw [passed, (initial.2 link).1, (initial.2 link).2]
    exact List.nil_sublist _
  · intro s a t _ before _ moves
    rcases (stepped moves).link link with ⟨new, more, passes⟩ | ⟨-, same, fewer⟩
    · rw [more, passes]
      exact before.append_right new
    · rw [same]
      exact fewer.trans before

/-- A link that loses nothing delivers everything. -/
theorem passed_eq_given {condition : NetworkState Node State Link Packet ->
      NetworkAction Node Action Link -> Prop}
    (run : N.system.Reaches condition s) (link : Link) (keeps : ∀ s a, condition s a -> Keeps link a) :
    passed s link = N.given s link := by
  apply run.invariant (P := fun s => passed s link = N.given s link)
  · intro s initial
    rw [passed, (initial.2 link).1, (initial.2 link).2, given,
      N.silent link _ (initial.1 (N.source link))]
    rfl
  · intro s a t _ before allowed moves
    rcases (stepped moves).link link with ⟨new, more, passes⟩ | ⟨loses, -, -⟩
    · rw [more, passes, before]
    · exact absurd (keeps s a allowed) loses

/-! ## Finer machines

The machines of a network may be replaced by finer ones, which do more between two of its
steps.  The network of the finer machines has the same links, and each of its runs is one of
the network when the finer steps are forgotten. -/

/-- Finer machines for a network: what the network sees of their states and of their actions,
`none` of an action that it does not see. -/
structure FinerMachines {Node State Action Link Packet : Type*}
    (N : Network Node State Action Link Packet) (Fine FineAction : Type*) where
  machine : Node -> Machine Fine FineAction
  view : Fine -> State
  seen : FineAction -> Option Action
  /-- The finer action in which a packet is taken. -/
  lift : Action -> FineAction
  seen_lift : ∀ action, seen (lift action) = some action
  init : ∀ node c, (machine node).init c -> (N.machine node).init (view c)
  unseen : ∀ node c a d, (machine node).step c a = some d -> seen a = none -> view d = view c
  step : ∀ node c a d action, (machine node).step c a = some d -> seen a = some action ->
    (N.machine node).step (view c) action = some (view d)

namespace FinerMachines

variable {Node State Action Link Packet Fine FineAction : Type*}
  {N : Network Node State Action Link Packet} (finer : FinerMachines N Fine FineAction)

theorem written_grows (link : Link) (c d : Fine) (a : FineAction)
    (moves : (finer.machine (N.source link)).step c a = some d) :
    N.written link (finer.view c) <+: N.written link (finer.view d) := by
  cases sees : finer.seen a with
  | none => rw [finer.unseen _ _ _ _ moves sees]
  | some action => exact N.grows link _ _ _ (finer.step _ _ _ _ _ moves sees)

/-- The network of the finer machines. -/
def network : Network Node Fine FineAction Link Packet where
  machine := finer.machine
  source := N.source
  target := N.target
  written := fun link c => N.written link (finer.view c)
  receives := fun link packet => (N.receives link packet).map finer.lift
  silent := fun link _ initial => N.silent link _ (finer.init _ _ initial)
  grows := fun link c a d moves => finer.written_grows link c d a moves

/-- The state that the network sees. -/
def forget (s : NetworkState Node Fine Link Packet) : NetworkState Node State Link Packet where
  nodes := fun node => finer.view (s.nodes node)
  wires := s.wires
  taken := s.taken

/-- The action that the network sees. -/
def sees : NetworkAction Node FineAction Link -> Option (NetworkAction Node Action Link)
  | .act node action => (finer.seen action).map (.act node)
  | .receive link => some (.receive link)
  | .lose link index => some (.lose link index)

variable [DecidableEq Node]

theorem forget_moved (s : NetworkState Node Fine Link Packet) (node : Node) (after : Fine) :
    finer.forget (finer.network.moved s node after) =
      N.moved (finer.forget s) node (finer.view after) := by
  have nodes : (fun other => finer.view (Function.update s.nodes node after other)) =
      Function.update (fun other => finer.view (s.nodes other)) node (finer.view after) :=
    funext fun other => Function.apply_update (fun _ => finer.view) s.nodes node after other
  exact congrArg (fun nodes => NetworkState.mk nodes _ _) nodes

/-- A machine whose state looks the same has not moved. -/
theorem moved_view (s : NetworkState Node State Link Packet) (node : Node) :
    N.moved s node (s.nodes node) = s := by
  rw [moved_of_written fun _ => rfl, Function.update_eq_self]

variable [DecidableEq Link] {s t : NetworkState Node Fine Link Packet}
  {a : NetworkAction Node FineAction Link}

/-- A finer step is a step of the network, or the network does not see it. -/
theorem stepped (moves : finer.network.system.step s a = some t) :
    (finer.sees a = none -> finer.forget t = finer.forget s) ∧
      ∀ action, finer.sees a = some action ->
        N.system.step (finer.forget s) action = some (finer.forget t) := by
  cases Network.stepped moves with
  | @acted node action after reached =>
      rw [forget_moved]
      cases seen : finer.seen action with
      | none =>
          simp only [sees, seen, Option.map_none]
          refine ⟨fun _ => ?_, nofun⟩
          rw [finer.unseen _ _ _ _ reached seen]
          exact moved_view _ node
      | some coarse =>
          simp only [sees, seen, Option.map_some]
          refine ⟨nofun, fun action same => ?_⟩
          cases same
          exact congrArg (Option.map _) (finer.step _ _ _ _ _ reached seen)
  | @received link packet rest action after front taken reached =>
      rcases Option.map_eq_some_iff.mp taken with ⟨coarse, takes, rfl⟩
      have coarsely := finer.step _ _ _ _ _ reached (finer.seen_lift coarse)
      refine ⟨nofun, fun action same => ?_⟩
      cases same
      have wires : (finer.forget s).wires link = packet :: rest := front
      rw [forget_moved]
      change N.step (finer.forget s) (.receive link) = _
      simp only [Network.step, wires, takes]
      exact congrArg (Option.map _) coarsely
  | lost link index =>
      refine ⟨nofun, fun action same => ?_⟩
      cases same
      rfl

/-- Each run of the finer machines is a run of the network. -/
theorem refines {condition : NetworkState Node Fine Link Packet ->
      NetworkAction Node FineAction Link -> Prop}
    {coarse : NetworkState Node State Link Packet -> NetworkAction Node Action Link -> Prop}
    (allowed : ∀ s a action, condition s a -> finer.sees a = some action ->
      coarse (finer.forget s) action)
    (run : finer.network.system.Reaches condition s) :
    N.system.Reaches coarse (finer.forget s) := by
  apply run.invariant (P := fun s => N.system.Reaches coarse (finer.forget s))
  · intro s initial
    exact ⟨_, ⟨fun node => finer.init _ _ (initial.1 node), initial.2⟩, .refl⟩
  · intro s a t _ reached permitted moves
    cases seen : finer.sees a with
    | none => rwa [(finer.stepped moves).1 seen]
    | some action =>
        exact reached.next (allowed s a action permitted seen) ((finer.stepped moves).2 action seen)

end FinerMachines

end Network

/-- A reader that gives each item back or nothing yields a part of what was there. -/
theorem filterMap_sublist_map {α β : Type*} {read : α -> Option β} {exact : α -> β} {items : List α}
    (faithful : ∀ item ∈ items, ∀ value ∈ read item, value = exact item) :
    (items.filterMap read).Sublist (items.map exact) := by
  induction items with
  | nil => exact List.Sublist.refl _
  | cons item rest ih =>
      rcases List.forall_mem_cons.mp faithful with ⟨here, later⟩
      cases value : read item with
      | none =>
          rw [List.filterMap_cons_none value]
          exact (ih later).cons _
      | some value' =>
          rw [List.filterMap_cons_some value, List.map_cons, here value' value]
          exact (ih later).cons_cons _

end Foundation
end SwarmBridge
