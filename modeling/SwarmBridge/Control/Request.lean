import SwarmBridge.Foundation.Delimited
import Mathlib.Data.Rat.Defs
import Mathlib.Algebra.Order.Ring.Rat
import Mathlib.Logic.Function.Basic

namespace SwarmBridge

open Foundation

/-!
# Control requests as text

The control server receives a request of the form `key=value;key=value` and
checks it field by field before it looks at the fault state.  Text is a list of
bytes, as in `std::string`; whitespace is that of `std::isspace` in the C locale,
which the node never leaves.
-/

/-- The bytes of a `std::string`. -/
abbrev Text := List UInt8

/-- A Python or C++ string as it goes over the wire, in UTF-8. -/
def encode (text : List Char) : Text := text.flatMap String.utf8EncodeChar

/-- A string literal of the source. -/
def literal (text : String) : Text := encode text.toList

/-- `std::isspace`: blank, tab, line feed, vertical tab, form feed, carriage return. -/
def isspace (byte : UInt8) : Bool := byte == 0x20 || (0x09 ≤ byte && byte ≤ 0x0D)

/-- The byte of `;`, at which `std::getline` ends a segment. -/
def segmentEnd : UInt8 := 0x3B

/-- The byte of `=`. -/
def keyEnd : UInt8 := 0x3D

/-- `trim_copy`. -/
def trimCopy (text : Text) : Text := strip isspace text

/-- A `std::map<std::string, std::string>`, read through `find`. -/
abbrev Fields := Text -> Option Text

/-- One turn of the loop of `parse_key_value_request`: a segment without `=` and
a segment with a blank key are ignored, and a repeated key is overwritten. -/
def storeSegment (fields : Fields) (segment : Text) : Fields :=
  match splitFirst keyEnd segment with
  | none => fields
  | some (left, right) =>
      let key := trimCopy left
      let value := trimCopy right
      if key = [] then fields else Function.update fields key (some value)

/-- `parse_key_value_request`. -/
def parseKeyValueRequest (requestText : Text) : Fields :=
  (pieces segmentEnd requestText).foldl storeSegment fun _ => none

/-- A value as the parser returns it: no `;`, and no whitespace at either end. -/
abbrev PlainText (text : Text) : Prop := Plain segmentEnd isspace text

/-- A segment `key=value`. -/
def segment (field : Text × Text) : Text := field.1 ++ keyEnd :: field.2

/-! ## What the parser returns -/

/-- Every value in the fields of a request is plain. -/
theorem plain_of_parsed {requestText key value : Text}
    (parsed : parseKeyValueRequest requestText key = some value) : PlainText value := by
  suffices general : ∀ (segments : List Text) (fields : Fields),
      (∀ segment ∈ segments, segmentEnd ∉ segment) ->
      (∀ key value, fields key = some value -> PlainText value) ->
      ∀ key value, segments.foldl storeSegment fields key = some value -> PlainText value from
    general (pieces segmentEnd requestText) (fun _ => none)
      (fun _ => undelimited_of_mem_pieces) (fun _ _ none => by cases none) key value parsed
  intro segments
  induction segments with
  | nil => exact fun fields _ plain => plain
  | cons segment segments ih =>
      intro fields clean plain
      refine ih (storeSegment fields segment)
        (fun other member => clean other (List.mem_cons_of_mem _ member)) ?_
      intro key value stored
      unfold storeSegment at stored
      cases split : splitFirst keyEnd segment with
      | none => rw [split] at stored; exact plain key value stored
      | some parts =>
          rw [split] at stored
          dsimp only at stored
          by_cases empty : trimCopy parts.1 = []
          · rw [if_pos empty] at stored
            exact plain key value stored
          · rw [if_neg empty, Function.update_apply] at stored
            split_ifs at stored
            · cases stored
              refine plain_strip fun member => clean segment List.mem_cons_self ?_
              rw [splitFirst_eq_some split]
              exact List.mem_append_right _ (List.mem_cons_of_mem _ member)
            · exact plain key value stored

/-- The value of a segment, if it has this key. -/
def valueOf (key segment : Text) : Option Text :=
  match splitFirst keyEnd segment with
  | none => none
  | some (left, right) => if trimCopy left = key then some (trimCopy right) else none

/-- The value of the last segment of a request that has this key. -/
def lastField (requestText key : Text) : Option Text :=
  ((pieces segmentEnd requestText).filterMap (valueOf key)).getLast?

/-- A segment decides about the key it has and leaves the others. -/
theorem storeSegment_apply (fields : Fields) (segment : Text) {key : Text} (nonempty : key ≠ []) :
    storeSegment fields segment key = (valueOf key segment).or (fields key) := by
  unfold storeSegment valueOf
  cases splitFirst keyEnd segment with
  | none => rfl
  | some parts =>
      by_cases same : trimCopy parts.1 = key
      · simp [same, nonempty]
      · by_cases empty : trimCopy parts.1 = []
        · simp [empty, Ne.symm nonempty]
        · simp [empty, same, Function.update_of_ne (Ne.symm same)]

/-- The parser returns the last field with a key. -/
theorem parse_eq_lastField (requestText : Text) {key : Text} (nonempty : key ≠ []) :
    parseKeyValueRequest requestText key = lastField requestText key := by
  unfold parseKeyValueRequest lastField
  induction pieces segmentEnd requestText using List.reverseRecOn with
  | nil => rfl
  | append_singleton segments last ih =>
      rw [List.foldl_append, List.foldl_cons, List.foldl_nil, storeSegment_apply _ _ nonempty, ih,
        List.filterMap_append, List.getLast?_append]
      cases value : valueOf key last <;> simp [value]

/-- A plain key and value are stored as they are. -/
theorem storeSegment_segment (fields : Fields) {key value : Text} (unsplit : keyEnd ∉ key)
    (nonempty : key ≠ []) (plainKey : PlainText key) (plainValue : PlainText value) :
    storeSegment fields (segment (key, value)) = Function.update fields key (some value) := by
  unfold storeSegment
  rw [segment, splitFirst_append unsplit]
  dsimp only [trimCopy]
  rw [strip_of_plain plainKey, strip_of_plain plainValue, if_neg nonempty]

/-- Store plain fields one after the other. -/
def storeFields (stored : Fields) (fields : List (Text × Text)) : Fields :=
  fields.foldl (fun stored field => Function.update stored field.1 (some field.2)) stored

/-- Joined plain fields are read back one by one, a later one over an earlier one. -/
theorem parseKeyValueRequest_join {fields : List (Text × Text)}
    (keys : ∀ field ∈ fields, keyEnd ∉ field.1 ∧ field.1 ≠ [] ∧ PlainText field.1)
    (values : ∀ field ∈ fields, PlainText field.2) :
    parseKeyValueRequest ([segmentEnd].intercalate (fields.map segment)) =
      storeFields (fun _ => none) fields := by
  have split : pieces segmentEnd ([segmentEnd].intercalate (fields.map segment)) =
      fields.map segment := by
    refine pieces_intercalate ?_ ?_
    · simp only [List.mem_map, forall_exists_index, and_imp, forall_apply_eq_imp_iff₂]
      intro field member
      have plainKey := (keys field member).2.2.undelimited
      have plainValue := (values field member).undelimited
      simp only [segment, List.mem_append, List.mem_cons, not_or]
      exact ⟨plainKey, by decide, plainValue⟩
    · simp only [List.mem_map, forall_exists_index, and_imp, forall_apply_eq_imp_iff₂]
      exact fun field _ => List.append_ne_nil_of_right_ne_nil _ (List.cons_ne_nil _ _)
  rw [parseKeyValueRequest, split, List.foldl_map]
  clear split
  generalize (fun _ => none : Fields) = stored
  induction fields generalizing stored with
  | nil => rfl
  | cons field fields ih =>
      have here := keys field List.mem_cons_self
      rw [List.foldl_cons, storeFields, List.foldl_cons,
        storeSegment_segment stored here.1 here.2.1 here.2.2 (values field List.mem_cons_self)]
      exact ih (fun other member => keys other (List.mem_cons_of_mem _ member))
        (fun other member => values other (List.mem_cons_of_mem _ member))
        (Function.update stored field.1 (some field.2))

/-! ## The checks of a request -/

/-- A double as `std::stod` returns it. -/
inductive Double
  | nan
  | infinite (negative : Bool)
  | finite (value : ℚ)
deriving DecidableEq, Repr

/-- The comparison `duration_sec > 0.0`. -/
def Double.positive : Double -> Bool
  | .nan => false
  | .infinite negative => !negative
  | .finite value => decide (0 < value)

/-- What the handler of a request reads besides the request: the fields `node_id`
and `token` of `active_config`, and the two number conversions of the standard
library.  `stod` returns the value and the number of characters it consumed, or
throws.  The conversion of an infinite duration to the clock's ticks overflows;
`overflowSec` stands for whatever number of seconds comes out. -/
structure ControlServer where
  nodeId : Text
  token : Text
  stod : Text -> Option (Double × ℕ)
  printed : Double -> Text
  overflowSec : {sec : ℚ // 0 < sec}

/-- `build_response`. -/
def buildResponse (ok : Bool) (nodeId messageKey messageValue : Text) : Text :=
  literal "ok=" ++ (if ok then literal "true" else literal "false") ++
    literal ";node_id=" ++ nodeId ++ literal ";" ++ messageKey ++ literal "=" ++ messageValue

namespace ControlServer

variable (server : ControlServer)

/-- The answer to a request that fails a check. -/
def refusal (reason : String) : Text :=
  buildResponse false server.nodeId (literal "error") (literal reason)

/-- The answer to a request that started a fault. -/
def granted (duration : Double) : Text :=
  buildResponse true server.nodeId (literal "message") (literal "node_fault_started") ++
    literal ";duration_sec=" ++ server.printed duration

/-- `parse_positive_duration`. -/
def parsePositiveDuration (fields : Fields) : Option Double :=
  match fields (literal "duration_sec") with
  | none => none
  | some text =>
      match server.stod text with
      | none => none
      | some (duration, parsedChars) =>
          if parsedChars = text.length ∧ duration.positive = true then some duration else none

/-- The `target` field is present, and it names another node. -/
def targetMismatch (fields : Fields) : Bool :=
  match fields (literal "target") with
  | none => false
  | some target => target != [] && server.nodeId != [] && target != server.nodeId

/-- The node has a token, and the `token` field is not it. -/
def unauthorized (fields : Fields) : Bool :=
  server.token != [] && fields (literal "token") != some server.token

/-- The checks of `handle_control_request` up to `is_node_fault_busy`: the answer
of the first one that fails, or the duration. -/
def checkRequest (requestText : Text) : Except Text Double :=
  let fields := parseKeyValueRequest requestText
  if fields (literal "command") ≠ some (literal "start_node_fault") then
    .error (server.refusal "invalid_command")
  else if server.targetMismatch fields then .error (server.refusal "target_mismatch")
  else if server.unauthorized fields then .error (server.refusal "unauthorized")
  else
    match server.parsePositiveDuration fields with
    | none => .error (server.refusal "invalid_duration_sec")
    | some duration => .ok duration

end ControlServer

end SwarmBridge
