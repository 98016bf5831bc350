import SwarmBridge.Control.Request
import Mathlib.Data.Nat.Digits.Defs

namespace SwarmBridge

open Foundation

/-!
# The client of the control server

`trigger_fault.py` joins the fields of a request with `;` and escapes nothing,
and the server splits at every `;` and trims every value.  The two agree on
exactly the token and target texts that the parser can return, and on every
duration, because the text of a Python float is one of these.
-/

/-! ## Python floats as text -/

/-- A Python float as its `repr` sees it.  A finite one is `± 0.d₁d₂…dₙ · 10 ^ point`,
with the shortest digits that round to it. -/
inductive PyFloat
  | nan
  | infinity (negative : Bool)
  | finite (negative : Bool) (digits : List (Fin 10)) (point : ℤ)
deriving DecidableEq, Repr

namespace PyFloat

def digitChar (digit : Fin 10) : Char := Nat.digitChar digit.val

/-- An exponent has a sign and at least two digits. -/
def reprExponent (exponent : ℤ) : List Char :=
  let digits := (Nat.digits 10 exponent.natAbs).reverse.map Nat.digitChar
  'e' :: (if exponent < 0 then '-' else '+') :: List.replicate (2 - digits.length) '0' ++ digits

/-- The digits of a finite float: with an exponent when the decimal point is far
from them, and otherwise with a decimal point that has a digit on either side. -/
def reprFinite (digits : List (Fin 10)) (point : ℤ) : List Char :=
  let digits := digits.map digitChar
  if point ≤ -4 ∨ 16 < point then
    digits.take 1 ++ (if digits.length ≤ 1 then [] else '.' :: digits.drop 1) ++
      reprExponent (point - 1)
  else if point ≤ 0 then '0' :: '.' :: List.replicate point.natAbs '0' ++ digits
  else if digits.length ≤ point.natAbs then
    digits ++ List.replicate (point.natAbs - digits.length) '0' ++ ['.', '0']
  else digits.take point.natAbs ++ '.' :: digits.drop point.natAbs

/-- The text of a float in an f-string. -/
def repr : PyFloat -> List Char
  | .nan => ['n', 'a', 'n']
  | .infinity negative => (if negative then ['-'] else []) ++ ['i', 'n', 'f']
  | .finite negative digits point => (if negative then ['-'] else []) ++ reprFinite digits point

/-- The check `args.duration <= 0.0` of `main` lets the duration through. -/
def accepted : PyFloat -> Bool
  | .nan => true
  | .infinity negative => !negative
  | .finite negative digits _ => !negative && digits.any fun digit => digit != 0

example : (PyFloat.finite false [2, 5] 1).repr = "2.5".toList := by decide

example : (PyFloat.finite false [1] (-4)).repr = "1e-05".toList := by decide

end PyFloat

/-! ## The request -/

/-- `build_request`. -/
def buildRequest (duration : PyFloat) (token target : List Char) : List Char :=
  let fields := ["command=start_node_fault".toList, "duration_sec=".toList ++ duration.repr]
  let fields := if token ≠ [] then fields ++ ["token=".toList ++ token] else fields
  let fields := if target ≠ [] then fields ++ ["target=".toList ++ target] else fields
  [';'].intercalate fields

/-- What the client means by its request. -/
def requestFields (duration : PyFloat) (token target : List Char) : Fields := fun key =>
  if key = literal "command" then some (literal "start_node_fault")
  else if key = literal "duration_sec" then some (encode duration.repr)
  else if key = literal "token" then if token = [] then none else some (encode token)
  else if key = literal "target" then if target = [] then none else some (encode target)
  else none

/-- The server reads the request as the client means it, and a node that has
exactly this token and this name does not refuse it for them. -/
structure Understood (duration : PyFloat) (token target : List Char) : Prop where
  fields : parseKeyValueRequest (encode (buildRequest duration token target)) =
    requestFields duration token target
  recognised : ∀ server : ControlServer, server.token = encode token ->
    server.nodeId = encode target ->
    server.checkRequest (encode (buildRequest duration token target)) ∉
      [.error (server.refusal "unauthorized"), .error (server.refusal "target_mismatch")]

/-- The whitespace characters of `std::isspace`, before the text is encoded. -/
def whitespace (char : Char) : Bool := char == ' ' || ('\t' ≤ char && char ≤ '\r')

/-- An argument without `;` and without whitespace at either end. -/
abbrev PlainArgument (text : List Char) : Prop := Plain ';' whitespace text

/-! ## Plain text and its encoding -/

/-- A byte of an encoded character is that character, or both lie beyond ASCII. -/
theorem mem_utf8EncodeChar {char : Char} {byte : UInt8}
    (member : byte ∈ String.utf8EncodeChar char) :
    byte.toNat = char.val.toNat ∨ 128 ≤ byte.toNat ∧ 128 ≤ char.val.toNat := by
  unfold String.utf8EncodeChar at member
  dsimp only at member
  split_ifs at member
  · left
    rw [List.mem_singleton.mp member, UInt8.toNat_ofNat']
    omega
  all_goals
    right
    refine ⟨?_, by omega⟩
    simp only [List.mem_cons, List.not_mem_nil, or_false] at member
    rcases member with rfl | rfl | rfl | rfl <;> rw [UInt8.toNat_ofNat'] <;> omega

theorem isspace_iff {byte : UInt8} :
    isspace byte = true ↔ byte.toNat = 32 ∨ 9 ≤ byte.toNat ∧ byte.toNat ≤ 13 := by
  simp [isspace, UInt8.le_iff_toNat_le, UInt8.ext_iff]

theorem whitespace_iff {char : Char} :
    whitespace char = true ↔ char.val.toNat = 32 ∨ 9 ≤ char.val.toNat ∧ char.val.toNat ≤ 13 := by
  simp [whitespace, Char.le_def, UInt32.le_iff_toNat_le, Char.ext_iff, UInt32.ext_iff]

theorem isspace_eq_whitespace {char : Char} {byte : UInt8}
    (member : byte ∈ String.utf8EncodeChar char) : isspace byte = whitespace char := by
  rw [Bool.eq_iff_iff, isspace_iff, whitespace_iff]
  rcases mem_utf8EncodeChar member with same | beyond <;> omega

theorem eq_segmentEnd_iff {char : Char} {byte : UInt8}
    (member : byte ∈ String.utf8EncodeChar char) : byte = segmentEnd ↔ char = ';' := by
  have byteIs : byte = segmentEnd ↔ byte.toNat = 59 := UInt8.toNat_inj.symm
  have charIs : char = ';' ↔ char.val.toNat = 59 := by
    simp [Char.ext_iff, UInt32.ext_iff]
  rw [byteIs, charIs]
  rcases mem_utf8EncodeChar member with same | beyond <;> omega

theorem encode_append (left right : List Char) :
    encode (left ++ right) = encode left ++ encode right :=
  List.flatMap_append

theorem head?_encode (text : List Char) :
    (encode text).head? = text.head?.bind fun first => (String.utf8EncodeChar first).head? := by
  cases text with
  | nil => rfl
  | cons first rest =>
      rw [encode, List.flatMap_cons, List.head?_append_of_ne_nil _ String.utf8EncodeChar_ne_nil]
      rfl

theorem getLast?_encode (text : List Char) :
    (encode text).getLast? =
      text.getLast?.bind fun last => (String.utf8EncodeChar last).getLast? := by
  rcases List.eq_nil_or_concat text with rfl | ⟨rest, last, rfl⟩
  · rfl
  · rw [List.concat_eq_append, encode_append, List.getLast?_append_of_ne_nil, List.getLast?_concat]
    · simp [encode]
    · simp [encode]

/-- The encoding of a text is plain exactly when the text is. -/
theorem plainText_encode_iff {text : List Char} : PlainText (encode text) ↔ PlainArgument text := by
  constructor
  · intro plain
    refine ⟨fun member => ?_, fun first starts => ?_, fun last ends => ?_⟩
    · refine plain.undelimited (List.mem_flatMap.mpr ⟨';', member, ?_⟩)
      decide
    · rcases Option.isSome_iff_exists.mp
        (List.isSome_head?.mpr String.utf8EncodeChar_ne_nil) with ⟨byte, here⟩
      rw [← isspace_eq_whitespace (List.mem_of_mem_head? here)]
      refine plain.starts byte ?_
      rw [head?_encode, Option.mem_def.mp starts]
      exact here
    · rcases Option.isSome_iff_exists.mp
        (List.getLast?_isSome.mpr String.utf8EncodeChar_ne_nil) with ⟨byte, here⟩
      rw [← isspace_eq_whitespace (List.mem_of_mem_getLast? here)]
      refine plain.ends byte ?_
      rw [getLast?_encode, Option.mem_def.mp ends]
      exact here
  · intro plain
    refine ⟨fun member => ?_, fun byte starts => ?_, fun byte ends => ?_⟩
    · rcases List.mem_flatMap.mp member with ⟨char, inText, inChar⟩
      exact plain.undelimited ((eq_segmentEnd_iff inChar).mp rfl ▸ inText)
    · rw [head?_encode, Option.mem_def, Option.bind_eq_some_iff] at starts
      rcases starts with ⟨first, front, here⟩
      rw [isspace_eq_whitespace (List.mem_of_mem_head? here)]
      exact plain.starts first front
    · rw [getLast?_encode, Option.mem_def, Option.bind_eq_some_iff] at ends
      rcases ends with ⟨last, back, here⟩
      rw [isspace_eq_whitespace (List.mem_of_mem_getLast? here)]
      exact plain.ends last back

/-! ## The text of a float is plain -/

/-- A character that is neither `;` nor whitespace. -/
def solid (char : Char) : Bool := char != ';' && !whitespace char

theorem plainArgument_of_solid {text : List Char} (all : text.all solid = true) :
    PlainArgument text := by
  refine plain_of_solid fun char member => ?_
  simpa [solid] using List.all_eq_true.mp all char member

namespace PyFloat

theorem solid_digitChar (digit : Fin 10) : solid (digitChar digit) = true := by
  revert digit
  decide

theorem solid_reprExponent (exponent : ℤ) : ∀ char ∈ reprExponent exponent, solid char = true := by
  intro char member
  have digits : ∀ digit < 10, solid (Nat.digitChar digit) = true := by decide
  simp only [reprExponent, List.cons_append, List.mem_cons, List.mem_append, List.mem_replicate,
    List.mem_map, List.mem_reverse] at member
  rcases member with rfl | rfl | ⟨-, rfl⟩ | ⟨digit, member, rfl⟩
  · decide
  · split_ifs <;> decide
  · decide
  · exact digits digit (Nat.digits_lt_base (by decide) member)

theorem solid_reprFinite (digits : List (Fin 10)) (point : ℤ) :
    ∀ char ∈ reprFinite digits point, solid char = true := by
  have all : ∀ char ∈ digits.map digitChar, solid char = true := by
    simp only [List.mem_map, forall_exists_index, and_imp, forall_apply_eq_imp_iff₂]
    exact fun digit _ => solid_digitChar digit
  intro char member
  unfold reprFinite at member
  dsimp only at member
  split_ifs at member <;>
    simp only [List.mem_append, List.mem_cons, List.not_mem_nil, List.mem_replicate,
      List.cons_append, or_false] at member
  · rcases member with first | exponent
    · exact all char (List.mem_of_mem_take first)
    · exact solid_reprExponent _ char exponent
  · rcases member with (first | rfl | others) | exponent
    · exact all char (List.mem_of_mem_take first)
    · decide
    · exact all char (List.mem_of_mem_drop others)
    · exact solid_reprExponent _ char exponent
  · rcases member with rfl | rfl | ⟨-, rfl⟩ | digit
    · decide
    · decide
    · decide
    · exact all char digit
  · rcases member with (digit | ⟨-, rfl⟩) | rfl | rfl
    · exact all char digit
    all_goals decide
  · rcases member with before | rfl | after
    · exact all char (List.mem_of_mem_take before)
    · decide
    · exact all char (List.mem_of_mem_drop after)

/-- The text of a float has no `;` and no whitespace. -/
theorem plain_repr (duration : PyFloat) : PlainArgument duration.repr := by
  cases duration with
  | nan => exact plainArgument_of_solid (by decide)
  | infinity negative =>
      cases negative with
      | false => exact plainArgument_of_solid (by decide)
      | true => exact plainArgument_of_solid (by decide)
  | finite negative digits point =>
      refine plainArgument_of_solid (List.all_eq_true.mpr fun char member => ?_)
      rw [repr, List.mem_append] at member
      rcases member with sign | number
      · cases negative with
        | false => cases sign
        | true =>
            rw [List.mem_singleton.mp sign]
            decide
      · exact solid_reprFinite digits point char number

end PyFloat

/-! ## Reading the request -/

/-- The fields of a request in the order in which the client writes them. -/
def writtenFields (duration : PyFloat) (token target : List Char) : List (Text × Text) :=
  [(literal "command", literal "start_node_fault"),
    (literal "duration_sec", encode duration.repr)] ++
    (if token = [] then [] else [(literal "token", encode token)]) ++
    if target = [] then [] else [(literal "target", encode target)]

theorem encode_intercalate (texts : List (List Char)) :
    encode ([';'].intercalate texts) = [segmentEnd].intercalate (texts.map encode) := by
  induction texts with
  | nil => rfl
  | cons text texts ih =>
      cases texts with
      | nil => simp only [List.intercalate_singleton, List.map_cons, List.map_nil]
      | cons next texts =>
          simp only [List.intercalate_cons_cons, List.map_cons, encode_append] at ih ⊢
          rw [ih]
          rfl

theorem encode_keyed (label name : String) (value : List Char)
    (keyed : encode label.toList = literal name ++ [keyEnd]) :
    encode (label.toList ++ value) = segment (literal name, encode value) := by
  rw [encode_append, keyed, List.append_assoc, List.singleton_append, segment]

theorem encode_buildRequest (duration : PyFloat) (token target : List Char) :
    encode (buildRequest duration token target) =
      [segmentEnd].intercalate ((writtenFields duration token target).map segment) := by
  have command : encode "command=start_node_fault".toList =
      segment (literal "command", literal "start_node_fault") := by decide
  have durationField := encode_keyed "duration_sec=" "duration_sec" duration.repr (by decide)
  have tokenField := encode_keyed "token=" "token" token (by decide)
  have targetField := encode_keyed "target=" "target" target (by decide)
  rw [buildRequest, encode_intercalate]
  refine congrArg _ ?_
  by_cases anonymous : token = [] <;> by_cases untargeted : target = [] <;>
    simp only [anonymous, untargeted, writtenFields, ne_eq, not_true_eq_false, not_false_eq_true,
      if_false, if_true, List.append_nil, List.cons_append, List.nil_append, List.map_cons,
      List.map_nil, command, durationField, tokenField, targetField]

theorem storeFields_writtenFields (duration : PyFloat) (token target : List Char) :
    storeFields (fun _ => none) (writtenFields duration token target) =
      requestFields duration token target := by
  have distinct : [literal "command", literal "duration_sec", literal "token",
      literal "target"].Nodup := by decide
  funext key
  unfold storeFields writtenFields requestFields
  by_cases anonymous : token = [] <;> by_cases untargeted : target = [] <;>
    simp only [anonymous, untargeted, if_true, if_false, List.append_nil, List.cons_append,
      List.nil_append, List.foldl_cons, List.foldl_nil, Function.update_apply] <;> grind

theorem mem_writtenFields {duration : PyFloat} {token target : List Char} {field : Text × Text}
    (member : field ∈ writtenFields duration token target) :
    field ∈ [(literal "command", literal "start_node_fault"),
      (literal "duration_sec", encode duration.repr), (literal "token", encode token),
      (literal "target", encode target)] := by
  simp only [writtenFields] at member
  split_ifs at member <;>
    simp only [List.mem_append, List.mem_cons, List.not_mem_nil] at member ⊢ <;> tauto

theorem plain_literal {text : String} (solidText : text.toList.all solid = true) :
    PlainText (literal text) :=
  plainText_encode_iff.mpr (plainArgument_of_solid solidText)

/-- Plain arguments arrive as they were given. -/
theorem parse_buildRequest (duration : PyFloat) {token target : List Char}
    (plainToken : PlainArgument token) (plainTarget : PlainArgument target) :
    parseKeyValueRequest (encode (buildRequest duration token target)) =
      requestFields duration token target := by
  rw [encode_buildRequest, parseKeyValueRequest_join, storeFields_writtenFields]
  · intro field member
    have among := mem_writtenFields member
    simp only [List.mem_cons, List.not_mem_nil, or_false] at among
    rcases among with rfl | rfl | rfl | rfl <;>
      exact ⟨by dsimp only; decide, by dsimp only; decide, plain_literal (by decide)⟩
  · intro field member
    have among := mem_writtenFields member
    simp only [List.mem_cons, List.not_mem_nil, or_false] at among
    rcases among with rfl | rfl | rfl | rfl
    · exact plain_literal (by decide)
    · exact plainText_encode_iff.mpr duration.plain_repr
    · exact plainText_encode_iff.mpr plainToken
    · exact plainText_encode_iff.mpr plainTarget

/-- An argument that arrives as it was given is plain, whatever the other one is. -/
theorem plain_of_understood {duration : PyFloat} {token target : List Char}
    (understood : Understood duration token target) :
    PlainArgument token ∧ PlainArgument target := by
  have arrived : ∀ (key : String) (argument : List Char),
      requestFields duration token target (literal key) =
        (if argument = [] then none else some (encode argument)) -> PlainArgument argument := by
    intro key argument field
    by_cases empty : argument = []
    · rw [empty]
      exact plainArgument_of_solid (by simp)
    · rw [if_neg empty, ← understood.fields] at field
      exact plainText_encode_iff.mp (plain_of_parsed field)
  refine ⟨arrived "token" token ?_, arrived "target" target ?_⟩
  · rw [requestFields, if_neg (by decide), if_neg (by decide), if_pos rfl]
  · rw [requestFields, if_neg (by decide), if_neg (by decide), if_neg (by decide), if_pos rfl]

/-- A node that is asked with its own token and by its own name finds both right. -/
theorem ControlServer.recognises (server : ControlServer) (duration : PyFloat)
    {token target : List Char} (sameToken : server.token = encode token)
    (sameNode : server.nodeId = encode target) :
    server.targetMismatch (requestFields duration token target) = false ∧
      server.unauthorized (requestFields duration token target) = false := by
  have tokenField : requestFields duration token target (literal "token") =
      if token = [] then none else some (encode token) := by
    rw [requestFields, if_neg (by decide), if_neg (by decide), if_pos rfl]
  have targetField : requestFields duration token target (literal "target") =
      if target = [] then none else some (encode target) := by
    rw [requestFields, if_neg (by decide), if_neg (by decide), if_neg (by decide), if_pos rfl]
  constructor
  · rw [targetMismatch, targetField, sameNode]
    by_cases empty : target = []
    · rw [if_pos empty]
    · simp [if_neg empty]
  · rw [unauthorized, tokenField, sameToken]
    by_cases empty : token = []
    · rw [empty]
      rfl
    · simp [if_neg empty]

/-- The answers of one node for two reasons differ. -/
theorem ControlServer.refusal_ne (server : ControlServer) {reason other : String}
    (different : literal reason ≠ literal other) : server.refusal reason ≠ server.refusal other :=
  fun same => different (List.append_cancel_left same)

/-- Client and server agree on a request exactly when neither the token nor the
target has a `;` in it or whitespace at an end.  The duration never matters. -/
theorem understood_iff (duration : PyFloat) (token target : List Char) :
    Understood duration token target ↔ PlainArgument token ∧ PlainArgument target := by
  refine ⟨plain_of_understood, fun plain => ?_⟩
  have fields := parse_buildRequest duration plain.1 plain.2
  refine ⟨fields, fun server sameToken sameNode => ?_⟩
  have recognised := server.recognises duration sameToken sameNode
  have command : requestFields duration token target (literal "command") =
      some (literal "start_node_fault") := if_pos rfl
  unfold ControlServer.checkRequest
  rw [fields]
  dsimp only
  rw [command, recognised.1, recognised.2, if_neg (fun wrong => wrong rfl),
    if_neg Bool.false_ne_true, if_neg Bool.false_ne_true]
  cases server.parsePositiveDuration (requestFields duration token target) with
  | none =>
      simp only [List.mem_cons, Except.error.injEq, List.not_mem_nil, or_false, not_or]
      exact ⟨server.refusal_ne (by decide), server.refusal_ne (by decide)⟩
  | some seconds => simp

/-- A token with a `;` in it goes on as another field: the fault that is asked for
2 s is started for 9 s, on a node that checks no token. -/
theorem token_changes_duration :
    (PyFloat.finite false [2] 1).accepted = true ∧
      parseKeyValueRequest
        (encode (buildRequest (.finite false [2] 1) "x;duration_sec=9".toList []))
        (literal "duration_sec") = some (literal "9") ∧
      ¬ Understood (.finite false [2] 1) "x;duration_sec=9".toList [] := by
  refine ⟨by decide, by decide +kernel, fun understood => ?_⟩
  exact (plain_of_understood understood).1.undelimited (by decide)

end SwarmBridge
