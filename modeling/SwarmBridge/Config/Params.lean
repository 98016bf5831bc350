import SwarmBridge.Control.SteadyTicks

namespace SwarmBridge

open Foundation

/-!
# Parameters of the node

`main` reads the topics from the parameter server as `XmlRpcValue`s.  A required field
is converted to a string or an `int`, an optional one may be absent or of several
types, and a bitrate may be written with a unit.  What does not fit ends the process,
with a message and an exit code, or with an exception that nobody catches.
-/

/-- `XmlRpc::XmlRpcValue`; dates and binary data only matter for being neither of the
other types. -/
inductive XmlRpcValue
  | boolean (value : Bool)
  | int (value : ℤ)
  | double (value : Double)
  | string (text : Text)
  | array (items : List XmlRpcValue)
  | struct (members : List (Text × XmlRpcValue))
  | other

/-- Why the process ends before the bridge runs. -/
inductive StartupFailure
  /-- A message is logged, and `main` returns this code or calls `exit` with it. -/
  | fatal (code : ℕ) (message : Text)
  /-- `ROS_ASSERT` fails. -/
  | asserted
  /-- An exception leaves `main`. -/
  | thrown
  /-- The behaviour is undefined: a table is read behind its end, or a value is used as
  a struct that is none. -/
  | undefined
deriving DecidableEq, Repr

/-- What the startup meets outside of the program: `std::stod`, what the conversion of
an absent member to a string or an `int` gives (`none` for an exception), the names that
ROS takes for a topic, whether a socket can be bound to an endpoint after others of the
process were bound, whether one can be connected to an endpoint, what the exception of a
failed bind says, and `ros::this_node::getName()`. -/
structure StartupEnvironment where
  stod : Text -> Option (Double × ℕ)
  absentString : Option Text
  absentInt : Option ℤ
  validName : Text -> Bool
  binds : List Text -> Text -> Bool
  connects : Text -> Bool
  bindError : Text -> Text
  nodeName : Text

/-- The member of a struct with this name, if there is one. -/
def member? (members : List (Text × XmlRpcValue)) (fieldName : String) : Option XmlRpcValue :=
  (members.find? fun entry => entry.1 == literal fieldName).map Prod.snd

namespace StartupEnvironment

variable (env : StartupEnvironment)

/-- The conversion of a member to `std::string`. -/
def asString : Option XmlRpcValue -> Except StartupFailure Text
  | some (.string text) => .ok text
  | some _ => .error .thrown
  | none =>
      match env.absentString with
      | some text => .ok text
      | none => .error .thrown

/-- The conversion of a member to `int`. -/
def asInt : Option XmlRpcValue -> Except StartupFailure ℤ
  | some (.int value) => .ok value
  | some _ => .error .thrown
  | none =>
      match env.absentInt with
      | some value => .ok value
      | none => .error .thrown

end StartupEnvironment

/-! ## Bitrates in writing -/

/-- The suffixes `k`, `K`, `m`, `M` of a bitrate, with the factor they stand for. -/
def unitFactor (suffix : UInt8) : Option ℚ :=
  if suffix = 0x6B ∨ suffix = 0x4B then some 1000
  else if suffix = 0x6D ∨ suffix = 0x4D then some 1000000
  else none

/-- The messages of `parse_bitrate_text`. -/
def bitrateEmpty (fieldName : Text) : StartupFailure :=
  .fatal 1 (literal "[bridge_node] Optional bitrate config \"" ++ fieldName ++
    literal "\" must not be empty!")

def bitrateUnitOnly (fieldName : Text) : StartupFailure :=
  .fatal 1 (literal "[bridge_node] Optional bitrate config \"" ++ fieldName ++
    literal "\" has no numeric value!")

def bitrateInvalid (fieldName bitrateText : Text) : StartupFailure :=
  .fatal 1 (literal "[bridge_node] Optional bitrate config \"" ++ fieldName ++
    literal "\" has invalid value \"" ++ bitrateText ++ literal "\"!")

/-- The second half of `parse_bitrate_text`, from its second `trim_copy` on. -/
def parseBitrateNumber (stod : Text -> Option (Double × ℕ)) (bitrateText fieldName : Text)
    (multiplier : ℚ) (text : Text) : Except StartupFailure Double :=
  let normalizedText := trimCopy text
  if normalizedText = [] then .error (bitrateUnitOnly fieldName)
  else
    match stod normalizedText with
    | none => .error (bitrateInvalid fieldName bitrateText)
    | some (baseValue, parsedChars) =>
        if parsedChars = normalizedText.length then .ok (baseValue.mul (.finite multiplier))
        else .error (bitrateInvalid fieldName bitrateText)

/-- `parse_bitrate_text`. -/
def parseBitrateText (stod : Text -> Option (Double × ℕ)) (bitrateText fieldName : Text) :
    Except StartupFailure Double :=
  let normalizedText := trimCopy bitrateText
  match normalizedText.getLast? with
  | none => .error (bitrateEmpty fieldName)
  | some suffix =>
      match unitFactor suffix with
      | some factor =>
          parseBitrateNumber stod bitrateText fieldName factor normalizedText.dropLast
      | none => parseBitrateNumber stod bitrateText fieldName 1 normalizedText

/-- A number that `std::stod` reads to its end, without blanks around it. -/
structure Numeral (stod : Text -> Option (Double × ℕ)) (number : Text) (base : Double) : Prop where
  nonempty : number ≠ []
  trimmed : trimCopy number = number
  read : stod number = some (base, number.length)

/-- Only blanks. -/
abbrev Blank (text : Text) : Prop := ∀ byte ∈ text, isspace byte = true

/-- A bitrate in writing: a number, with a unit behind it or not, and blanks anywhere
around the two. -/
inductive BitrateText (stod : Text -> Option (Double × ℕ)) : Text -> Double -> Prop
  | plain {before number after : Text} {base : Double} (leading : Blank before)
      (trailing : Blank after) (numeral : Numeral stod number base)
      (unitless : ∀ last ∈ number.getLast?, unitFactor last = none) :
      BitrateText stod (before ++ number ++ after) (base.mul (.finite 1))
  | scaled {before number between after : Text} {unit : UInt8} {factor : ℚ} {base : Double}
      (leading : Blank before) (inner : Blank between) (trailing : Blank after)
      (numeral : Numeral stod number base) (scales : unitFactor unit = some factor) :
      BitrateText stod (before ++ (number ++ between ++ [unit]) ++ after)
        (base.mul (.finite factor))

section BitrateLaws

variable {stod : Text -> Option (Double × ℕ)} {bitrateText fieldName text : Text} {rate : Double}
  {multiplier : ℚ}

theorem isspace_of_unit {unit : UInt8} {factor : ℚ} (scales : unitFactor unit = some factor) :
    isspace unit = false := by
  unfold unitFactor at scales
  split_ifs at scales with kilo mega
  · rcases kilo with rfl | rfl <;> rfl
  · rcases mega with rfl | rfl <;> rfl

/-- The second half accepts exactly the numerals, with blanks around them. -/
theorem parseBitrateNumber_eq_ok_iff :
    parseBitrateNumber stod bitrateText fieldName multiplier text = .ok rate ↔
      ∃ base, Numeral stod (trimCopy text) base ∧ rate = base.mul (.finite multiplier) := by
  unfold parseBitrateNumber
  dsimp only
  constructor
  · intro parsed
    split_ifs at parsed with empty
    split at parsed
    case h_1 => cases parsed
    case h_2 baseValue parsedChars read =>
      split_ifs at parsed with whole
      cases parsed
      subst whole
      exact ⟨baseValue, ⟨empty, strip_strip text, read⟩, rfl⟩
  · rintro ⟨base, numeral, rfl⟩
    rw [if_neg numeral.nonempty, numeral.read]
    exact if_pos rfl

theorem parseBitrateText_unit {unit : UInt8} {factor : ℚ} (scales : unitFactor unit = some factor)
    (ends : (trimCopy bitrateText).getLast? = some unit) :
    parseBitrateText stod bitrateText fieldName =
      parseBitrateNumber stod bitrateText fieldName factor (trimCopy bitrateText).dropLast := by
  unfold parseBitrateText
  dsimp only
  rw [ends]
  dsimp only
  rw [scales]

theorem parseBitrateText_unitless {last : UInt8} (unitless : unitFactor last = none)
    (ends : (trimCopy bitrateText).getLast? = some last) :
    parseBitrateText stod bitrateText fieldName =
      parseBitrateNumber stod bitrateText fieldName 1 (trimCopy bitrateText) := by
  unfold parseBitrateText
  dsimp only
  rw [ends]
  dsimp only
  rw [unitless]

/-- What `trim_copy` takes off are blanks. -/
theorem trimCopy_padding (text : Text) : ∃ before after, text = before ++ trimCopy text ++ after ∧
    Blank before ∧ Blank after :=
  strip_padding text

/-- The trimmed text of a number with a unit. -/
theorem trimCopy_scaled {before number between after : Text} {unit : UInt8} {factor : ℚ}
    (leading : Blank before) (trailing : Blank after) (nonempty : number ≠ [])
    (trimmed : trimCopy number = number) (scales : unitFactor unit = some factor) :
    trimCopy (before ++ (number ++ between ++ [unit]) ++ after) = number ++ between ++ [unit] := by
  rw [trimCopy, strip_padded _ leading trailing]
  apply strip_of_edges
  · intro first starts
    rw [List.append_assoc, List.head?_append_of_ne_nil number nonempty] at starts
    rw [← trimmed] at starts
    exact strip_starts number first starts
  · intro last ends
    rw [List.getLast?_concat, Option.mem_def, Option.some_inj] at ends
    exact ends ▸ isspace_of_unit scales

/-- What the parser accepts is a bitrate in writing. -/
theorem bitrateText_of_parsed (parsed : parseBitrateText stod bitrateText fieldName = .ok rate) :
    BitrateText stod bitrateText rate := by
  rcases trimCopy_padding bitrateText with ⟨before, after, whole, leading, trailing⟩
  cases ends : (trimCopy bitrateText).getLast? with
  | none =>
      unfold parseBitrateText at parsed
      dsimp only at parsed
      rw [ends] at parsed
      cases parsed
  | some last =>
      cases unit : unitFactor last with
      | none =>
          have again : trimCopy (trimCopy bitrateText) = trimCopy bitrateText := strip_strip bitrateText
          rw [parseBitrateText_unitless unit ends, parseBitrateNumber_eq_ok_iff, again] at parsed
          rcases parsed with ⟨base, numeral, rfl⟩
          rw [whole]
          refine .plain leading trailing numeral fun byte member => ?_
          rw [Option.mem_def, ends, Option.some_inj] at member
          exact member ▸ unit
      | some factor =>
          rw [parseBitrateText_unit unit ends, parseBitrateNumber_eq_ok_iff] at parsed
          rcases parsed with ⟨base, numeral, rfl⟩
          -- the text before the unit: it starts like the whole, and may end in blanks
          rcases trimCopy_padding (trimCopy bitrateText).dropLast with
            ⟨front, between, core, blankFront, inner⟩
          have split : trimCopy bitrateText = (trimCopy bitrateText).dropLast ++ [last] :=
            (List.dropLast_append_getLast? last ends).symm
          have shape : bitrateText = (before ++ front) ++
              (trimCopy (trimCopy bitrateText).dropLast ++ between ++ [last]) ++ after := by
            calc
              bitrateText = before ++ trimCopy bitrateText ++ after := whole
              _ = before ++ ((trimCopy bitrateText).dropLast ++ [last]) ++ after := by
                rw [← split]
              _ = before ++ (front ++ trimCopy (trimCopy bitrateText).dropLast ++ between ++
                  [last]) ++ after := by
                rw [← core]
              _ = _ := by
                simp only [List.append_assoc]
          rw [shape]
          refine .scaled ?_ inner trailing numeral unit
          intro byte member
          exact (List.mem_append.mp member).elim (leading byte) (blankFront byte)

/-- The parser accepts what is a bitrate in writing. -/
theorem parsed_of_bitrateText (written : BitrateText stod bitrateText rate) :
    parseBitrateText stod bitrateText fieldName = .ok rate := by
  cases written with
  | @plain before number after base leading trailing numeral unitless =>
      have trimmed : trimCopy (before ++ number ++ after) = number := by
        rw [trimCopy, strip_padded _ leading trailing]
        exact numeral.trimmed
      cases ends : number.getLast? with
      | none => exact absurd (List.getLast?_eq_none_iff.mp ends) numeral.nonempty
      | some last =>
          rw [parseBitrateText_unitless (unitless last ends) (by rw [trimmed, ends]),
            parseBitrateNumber_eq_ok_iff, trimmed, numeral.trimmed]
          exact ⟨base, numeral, rfl⟩
  | @scaled before number between after unit factor base leading inner trailing numeral scales =>
      have trimmed : trimCopy (before ++ (number ++ between ++ [unit]) ++ after) =
          number ++ between ++ [unit] :=
        trimCopy_scaled leading trailing numeral.nonempty numeral.trimmed scales
      have core : trimCopy (number ++ between) = number := by
        have padded : trimCopy ([] ++ number ++ between) = trimCopy number :=
          strip_padded number (fun _ none => absurd none List.not_mem_nil) inner
        exact padded.trans numeral.trimmed
      rw [parseBitrateText_unit scales (by rw [trimmed, List.getLast?_concat]),
        parseBitrateNumber_eq_ok_iff, trimmed, List.dropLast_concat, core]
      exact ⟨base, numeral, rfl⟩

end BitrateLaws

/-- The bitrates that are accepted are exactly those in writing, and they have the value
that is written. -/
theorem parse_bitrate_iff (stod : Text -> Option (Double × ℕ)) (bitrateText fieldName : Text)
    (rate : Double) : parseBitrateText stod bitrateText fieldName = .ok rate ↔
      BitrateText stod bitrateText rate :=
  ⟨bitrateText_of_parsed, parsed_of_bitrateText⟩

end SwarmBridge
