import SwarmBridge.Control.Authorised
import SwarmBridge.Control.TriggerFault

namespace SwarmBridge

open Foundation

/-!
# The answers of the control server as text

An answer has the form of a request, so that a script can read it with the same parser.  It
says whether a fault was started, which node answers, and the reason or the duration.  The
node's own name stands in the middle of it, and no check of the configuration looks at this
name.
-/

/-- The reasons for which a request is refused. -/
inductive Refusal
  | invalidRequest
  | invalidCommand
  | targetMismatch
  | unauthorized
  | invalidDurationSec
  | nodeFaultBusy
deriving DecidableEq

def Refusal.text : Refusal -> String
  | .invalidRequest => "invalid_request"
  | .invalidCommand => "invalid_command"
  | .targetMismatch => "target_mismatch"
  | .unauthorized => "unauthorized"
  | .invalidDurationSec => "invalid_duration_sec"
  | .nodeFaultBusy => "node_fault_busy"

/-- What became of a request. -/
inductive Outcome
  | refused (reason : Refusal)
  | started (duration : Double)

namespace Outcome

/-- The answer that reports the outcome. -/
def response (server : ControlServer) : Outcome -> Text
  | .refused reason => server.refusal reason.text
  | .started duration => server.granted duration

/-- The fields that the answer is meant to have, in their order. -/
def fields (server : ControlServer) : Outcome -> List (Text × Text)
  | .refused reason =>
      [(literal "ok", literal "false"), (literal "node_id", server.nodeId),
        (literal "error", literal reason.text)]
  | .started duration =>
      [(literal "ok", literal "true"), (literal "node_id", server.nodeId),
        (literal "message", literal "node_fault_started"),
        (literal "duration_sec", server.printed duration)]

end Outcome

/-! ## Every answer reports an outcome -/

namespace ControlServer

variable {server : ControlServer} {request : Request} {requestText response : Text}

/-- The reason that the text checks give. -/
theorem exists_refusal (failed : server.checkRequest requestText = .error response) :
    ∃ reason : Refusal, response = server.refusal reason.text := by
  unfold checkRequest at failed
  dsimp only at failed
  split_ifs at failed
  · exact ⟨.invalidCommand, (Except.error.inj failed).symm⟩
  · exact ⟨.targetMismatch, (Except.error.inj failed).symm⟩
  · exact ⟨.unauthorized, (Except.error.inj failed).symm⟩
  · cases known : server.parsePositiveDuration (parseKeyValueRequest requestText) with
    | none =>
        rw [known] at failed
        exact ⟨.invalidDurationSec, (Except.error.inj failed).symm⟩
    | some found =>
        rw [known] at failed
        cases failed

theorem exists_outcome (answer : Answer server request response) :
    ∃ outcome : Outcome, response = outcome.response server := by
  cases answer with
  | refused failed =>
      cases request with
      | nil =>
          cases failed
          exact ⟨.refused .invalidRequest, rfl⟩
      | cons text parts =>
          rcases exists_refusal failed with ⟨reason, same⟩
          exact ⟨.refused reason, same⟩
  | busy => exact ⟨.refused .nodeFaultBusy, rfl⟩
  | @started duration => exact ⟨.started duration, rfl⟩

end ControlServer

/-! ## Reading an answer -/

/-- Fields with different keys are stored as they are found in their list. -/
theorem storeFields_eq_lookup {fields : List (Text × Text)}
    (distinct : (fields.map Prod.fst).Nodup) (stored : Fields) :
    storeFields stored fields = fun key => (fields.lookup key).or (stored key) := by
  induction fields generalizing stored with
  | nil => rfl
  | cons field fields ih =>
      rcases List.nodup_cons.mp distinct with ⟨first, others⟩
      have later := ih others (Function.update stored field.1 (some field.2))
      rw [storeFields, List.foldl_cons, ← storeFields, later]
      funext key
      by_cases same : key = field.1
      · subst same
        have absent : fields.lookup field.1 = none := by
          apply List.lookup_eq_none_iff.mpr
          intro other member
          exact bne_iff_ne.mpr fun again => first (List.mem_map.mpr ⟨other, member, again.symm⟩)
        rw [absent, Function.update_self, List.lookup_cons_self]
        rfl
      · rw [Function.update_of_ne same, List.lookup_cons, beq_false_of_ne same]

namespace Outcome

variable {server : ControlServer} {outcome : Outcome}

theorem response_eq (server : ControlServer) (outcome : Outcome) :
    outcome.response server =
      [segmentEnd].intercalate ((outcome.fields server).map segment) := by
  have equals : literal "=" = [keyEnd] := by decide
  have ends : literal ";" = [segmentEnd] := by decide
  have ok : literal "ok=" = literal "ok" ++ [keyEnd] := by decide
  have nodeId : literal ";node_id=" = segmentEnd :: literal "node_id" ++ [keyEnd] := by decide
  have seconds : literal ";duration_sec=" = segmentEnd :: literal "duration_sec" ++ [keyEnd] := by
    decide
  cases outcome with
  | refused reason =>
      simp only [response, ControlServer.refusal, buildResponse, fields, List.map_cons,
        List.map_nil, List.intercalate_cons_cons, List.intercalate_singleton, segment, equals,
        ends, ok, nodeId]
      simp
  | started duration =>
      simp only [response, ControlServer.granted, buildResponse, fields, List.map_cons,
        List.map_nil, List.intercalate_cons_cons, List.intercalate_singleton, segment, equals,
        ends, ok, nodeId, seconds]
      simp

theorem plain_reason (reason : Refusal) : PlainText (literal reason.text) := by
  cases reason <;> exact plain_literal (by decide)

theorem plain_key {name : String}
    (known : name ∈ ["ok", "node_id", "error", "message", "duration_sec"]) :
    keyEnd ∉ literal name ∧ literal name ≠ [] ∧ PlainText (literal name) := by
  simp only [List.mem_cons, List.not_mem_nil, or_false] at known
  rcases known with rfl | rfl | rfl | rfl | rfl <;>
    exact ⟨by decide, by decide, plain_literal (by decide)⟩

/-- The answer of a node with a plain name is read back as it was meant. -/
theorem parse_response (printed : ∀ duration, PlainText (server.printed duration))
    (plain : PlainText server.nodeId) (outcome : Outcome) :
    parseKeyValueRequest (outcome.response server) = fun key =>
      (outcome.fields server).lookup key := by
  have keys : ∀ field ∈ outcome.fields server,
      keyEnd ∉ field.1 ∧ field.1 ≠ [] ∧ PlainText field.1 := by
    cases outcome <;>
      simp only [fields, List.forall_mem_cons, List.not_mem_nil, false_imp_iff, implies_true,
        and_true]
    · exact ⟨plain_key (by simp), plain_key (by simp), plain_key (by simp)⟩
    · exact ⟨plain_key (by simp), plain_key (by simp), plain_key (by simp), plain_key (by simp)⟩
  have values : ∀ field ∈ outcome.fields server, PlainText field.2 := by
    cases outcome <;>
      simp only [fields, List.forall_mem_cons, List.not_mem_nil, false_imp_iff, implies_true,
        and_true]
    · exact ⟨plain_literal (by decide), plain, plain_reason _⟩
    · exact ⟨plain_literal (by decide), plain, plain_literal (by decide), printed _⟩
  have distinct : ((outcome.fields server).map Prod.fst).Nodup := by
    cases outcome with
    | refused reason =>
        have names : [literal "ok", literal "node_id", literal "error"].Nodup := by decide
        exact names
    | started duration =>
        have names : [literal "ok", literal "node_id", literal "message",
          literal "duration_sec"].Nodup := by decide
        exact names
  rw [response_eq, parseKeyValueRequest_join keys values, storeFields_eq_lookup distinct]
  funext key
  exact Option.or_none

theorem lookup_node_id (server : ControlServer) (outcome : Outcome) :
    (outcome.fields server).lookup (literal "node_id") = some server.nodeId := by
  have other : (literal "node_id" == literal "ok") = false := by decide
  cases outcome <;> simp only [fields, List.lookup_cons, other, beq_self_eq_true]

/-- The `ok` field says what became of the request. -/
theorem lookup_ok (server : ControlServer) (outcome : Outcome) :
    (outcome.fields server).lookup (literal "ok") = some (literal "true") ↔
      SaysOk (outcome.response server) := by
  cases outcome with
  | refused reason =>
      have different : literal "false" ≠ literal "true" := by decide
      simp [fields, different, response, ControlServer.not_saysOk_refusal]
  | started duration => simp [fields, response, ControlServer.saysOk_granted]

end Outcome

/-- A request without parts, and the answer to it. -/
def emptySchedule : List SessionAction := [.ask [], .poll, .receive, .handle, .reply]

/-- Every server answers it. -/
theorem exists_exchange (server : ControlServer) :
    ∃ c, (controlSession labConfig server).Reachable c ∧
      c.exchanges = [([], server.refusal Refusal.invalidRequest.text)] := by
  have executed : ((controlSession labConfig server).exec (fun _ _ => True)
      (SessionState.initial labConfig 0) emptySchedule).map SessionState.exchanges =
      some [([], server.refusal Refusal.invalidRequest.text)] := rfl
  exact Machine.exists_reaches_of_exec _ ⟨0, rfl⟩ executed

/-- The answers of the control server are read back by the parser of its requests exactly when
the node's own name has no `;` in it and no whitespace at an end.  Then each answer, in every
run, has the fields of the outcome that it reports, and its `ok` is true for a success only. -/
theorem answers_are_read_back_iff (server : ControlServer)
    (printed : ∀ duration, PlainText (server.printed duration)) :
    PlainText server.nodeId ↔
      ∀ cfg c, (controlSession cfg server).Reachable c -> ∀ exchange ∈ c.exchanges,
        ∃ outcome : Outcome, exchange.2 = outcome.response server ∧
          (∀ key, parseKeyValueRequest exchange.2 key = (outcome.fields server).lookup key) ∧
          (parseKeyValueRequest exchange.2 (literal "ok") = some (literal "true") ↔
            SaysOk exchange.2) := by
  constructor
  · intro plain cfg c run exchange member
    have answer := (Lockstep.of_reachable run).answers exchange member
    rcases ControlServer.exists_outcome answer with ⟨outcome, reported⟩
    have parsed := outcome.parse_response printed plain
    refine ⟨outcome, reported, ?_, ?_⟩ <;> rw [reported, parsed]
    · exact fun _ => rfl
    · exact outcome.lookup_ok server
  · intro readBack
    rcases exists_exchange server with ⟨c, run, exchanges⟩
    rcases readBack labConfig c run _ (exchanges ▸ List.mem_singleton_self _) with
      ⟨outcome, -, fields, -⟩
    have name := fields (literal "node_id")
    rw [outcome.lookup_node_id server] at name
    exact plain_of_parsed name

/-- A server with a name. -/
def namedServer : ControlServer := { labServer with nodeId := literal "uav1" }

/-- Both clients of the schedule can read their answers. -/
theorem answers_are_read_back_iff_named :
    ∃ c, (controlSession labConfig namedServer).Reachable c ∧ c.exchanges.length = 2 ∧
      ∀ exchange ∈ c.exchanges,
        (parseKeyValueRequest exchange.2 (literal "ok") = some (literal "true") ↔
          SaysOk exchange.2) := by
  have executed : ((controlSession labConfig namedServer).exec (fun _ _ => True)
      (SessionState.initial labConfig 0) labSchedule).map (fun c => c.exchanges.length) =
      some 2 := by
    decide +kernel
  have started : (controlSession labConfig namedServer).init (SessionState.initial labConfig 0) :=
    ⟨0, rfl⟩
  rcases Machine.exists_reaches_of_exec _ started executed with ⟨c, run, answered⟩
  have printed : ∀ duration, PlainText (namedServer.printed duration) := fun _ =>
    plain_literal (by decide)
  have plain : PlainText namedServer.nodeId := plain_literal (by decide)
  refine ⟨c, run, answered, fun exchange member => ?_⟩
  rcases (answers_are_read_back_iff namedServer printed).mp plain labConfig c run exchange member
    with ⟨-, -, -, ok⟩
  exact ok

end SwarmBridge
