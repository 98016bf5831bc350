import SwarmBridge.Control.Request
import Mathlib.Data.Finmap

namespace SwarmBridge

open Foundation

/-!
# Reading back a written map

A request may have its fields in any order, with whitespace around every key and
value, with segments that carry no field between them, and with earlier segments
of a key that a later one replaces.  The parser returns the map that was written,
whichever of its texts is sent.
-/

/-- A finite map that a request can carry.  A value may be empty and may hold `=`. -/
structure RequestMap where
  fields : Finmap fun _ : Text => Text
  keys : ∀ key ∈ fields, key ≠ [] ∧ keyEnd ∉ key ∧ PlainText key
  values : ∀ key value, fields.lookup key = some value -> PlainText value

/-- The text with whitespace on either side of it. -/
def Padded (text padded : Text) : Prop :=
  ∃ before after, (∀ byte ∈ before, isspace byte = true) ∧ (∀ byte ∈ after, isspace byte = true) ∧
    padded = before ++ text ++ after

/-- The segment is `key=value`, with whitespace around the key and the value. -/
def WritesField (key value segment : Text) : Prop :=
  ∃ left right, Padded key left ∧ Padded value right ∧ segment = left ++ keyEnd :: right

/-- A segment without `=`, or with a blank key. -/
def Ignored (segment : Text) : Prop :=
  segmentEnd ∉ segment ∧ (keyEnd ∉ segment ∨ ∃ value, WritesField [] value segment)

/-- These segments write the map: each of them is ignored or gives some value to a key
of the map, and the last one of a key gives it the value of the map. -/
structure Writes (map : RequestMap) (segments : List Text) : Prop where
  known : ∀ segment ∈ segments, Ignored segment ∨
    ∃ key ∈ map.fields, ∃ value, segmentEnd ∉ value ∧ WritesField key value segment
  last : ∀ key value, map.fields.lookup key = some value ->
    ∃ earlier segment later, segments = earlier ++ segment :: later ∧
      WritesField key value segment ∧ ∀ other ∈ later, ∀ replaced, ¬ WritesField key replaced other

/-! ## What a segment stands for -/

theorem not_isspace_keyEnd : isspace keyEnd = false := by decide

theorem not_isspace_segmentEnd : isspace segmentEnd = false := by decide

namespace Padded

variable {text padded : Text}

theorem trimCopy_eq (spaced : Padded text padded) : trimCopy padded = trimCopy text := by
  rcases spaced with ⟨before, after, blankBefore, blankAfter, rfl⟩
  exact strip_padded text blankBefore blankAfter

/-- Padding adds nothing but whitespace. -/
theorem not_mem {byte : UInt8} (spaced : Padded text padded) (solid : isspace byte = false)
    (absent : byte ∉ text) : byte ∉ padded := by
  rcases spaced with ⟨before, after, blankBefore, blankAfter, rfl⟩
  intro member
  rcases List.mem_append.mp member with member | inAfter
  · rcases List.mem_append.mp member with inBefore | inText
    · rw [blankBefore byte inBefore] at solid
      cases solid
    · exact absent inText
  · rw [blankAfter byte inAfter] at solid
    cases solid

end Padded

namespace WritesField

variable {key value segment : Text}

/-- The parser finds in a segment the field that the segment writes. -/
theorem valueOf_eq (writes : WritesField key value segment) (unsplit : keyEnd ∉ key)
    (other : Text) :
    valueOf other segment = if trimCopy key = other then some (trimCopy value) else none := by
  rcases writes with ⟨left, right, aroundKey, aroundValue, rfl⟩
  have clean : keyEnd ∉ left := aroundKey.not_mem not_isspace_keyEnd unsplit
  rw [valueOf, splitFirst_append clean]
  dsimp only
  rw [aroundKey.trimCopy_eq, aroundValue.trimCopy_eq]

theorem undelimited (writes : WritesField key value segment) (inKey : segmentEnd ∉ key)
    (inValue : segmentEnd ∉ value) : segmentEnd ∉ segment := by
  rcases writes with ⟨left, right, aroundKey, aroundValue, rfl⟩
  rw [List.mem_append, List.mem_cons, not_or, not_or]
  exact ⟨aroundKey.not_mem not_isspace_segmentEnd inKey, by decide,
    aroundValue.not_mem not_isspace_segmentEnd inValue⟩

end WritesField

/-- An ignored segment gives no key a value. -/
theorem Ignored.valueOf_eq {key segment : Text} (ignored : Ignored segment)
    (nonempty : key ≠ []) : valueOf key segment = none := by
  rcases ignored.2 with unsplit | ⟨value, writes⟩
  · rw [valueOf, splitFirst_eq_none unsplit]
  · rw [writes.valueOf_eq List.not_mem_nil]
    exact if_neg (Ne.symm nonempty)

/-! ## What the request stands for -/

/-- A blank key is never stored. -/
theorem storeSegment_blank (fields : Fields) (segment : Text) :
    storeSegment fields segment [] = fields [] := by
  unfold storeSegment
  cases splitFirst keyEnd segment with
  | none => rfl
  | some parts =>
      dsimp only
      split_ifs with empty
      · rfl
      · exact Function.update_of_ne (Ne.symm empty) _ _

theorem parse_blank (requestText : Text) : parseKeyValueRequest requestText [] = none := by
  unfold parseKeyValueRequest
  induction pieces segmentEnd requestText using List.reverseRecOn with
  | nil => rfl
  | append_singleton segments last ih =>
      rw [List.foldl_append, List.foldl_cons, List.foldl_nil, storeSegment_blank, ih]

/-- The parser returns the last field with a key, of the segments as they were joined. -/
theorem parse_joined {segments : List Text} (clean : ∀ segment ∈ segments, segmentEnd ∉ segment)
    {key : Text} (nonempty : key ≠ []) :
    parseKeyValueRequest ([segmentEnd].intercalate segments) key =
      (segments.filterMap (valueOf key)).getLast? := by
  rcases pieces_joined clean with ⟨rest, whole, blank⟩
  have dropped : rest.filterMap (valueOf key) = [] :=
    List.filterMap_eq_nil_iff.mpr fun segment member => by rw [blank segment member]; rfl
  have kept := congrArg (List.filterMap (valueOf key)) whole
  rw [List.filterMap_append, dropped, List.append_nil] at kept
  rw [parse_eq_lastField _ nonempty, lastField, kept]

namespace Writes

variable {map : RequestMap} {segments : List Text}

theorem undelimited (writes : Writes map segments) :
    ∀ segment ∈ segments, segmentEnd ∉ segment := by
  intro segment member
  rcases writes.known segment member with ignored | ⟨key, known, value, clean, field⟩
  · exact ignored.1
  · exact field.undelimited (map.keys key known).2.2.undelimited clean

/-- A segment that gives a key of the request a value writes a field of this key. -/
theorem writesField_of_valueOf (writes : Writes map segments) {segment key value : Text}
    (member : segment ∈ segments) (nonempty : key ≠ []) (found : valueOf key segment = some value) :
    key ∈ map.fields ∧ ∃ given, WritesField key given segment := by
  rcases writes.known segment member with ignored | ⟨other, known, given, -, field⟩
  · rw [ignored.valueOf_eq nonempty] at found
    cases found
  · have rules := map.keys other known
    rw [field.valueOf_eq rules.2.1, trimCopy, strip_of_plain rules.2.2] at found
    split_ifs at found with same
    subst same
    exact ⟨known, given, field⟩

/-- The last field of a key is the one of the map. -/
theorem getLast?_eq (writes : Writes map segments) {key : Text} (nonempty : key ≠ []) :
    (segments.filterMap (valueOf key)).getLast? = map.fields.lookup key := by
  cases stored : map.fields.lookup key with
  | none =>
      have unknown : key ∉ map.fields := Finmap.lookup_eq_none.mp stored
      rw [List.getLast?_eq_none_iff, List.filterMap_eq_nil_iff]
      intro segment member
      cases found : valueOf key segment with
      | none => rfl
      | some value => exact absurd (writes.writesField_of_valueOf member nonempty found).1 unknown
  | some value =>
      rcases writes.last key value stored with ⟨earlier, segment, later, whole, field, latest⟩
      have rules := map.keys key (Finmap.mem_of_lookup_eq_some stored)
      have here : valueOf key segment = some value := by
        rw [field.valueOf_eq rules.2.1, trimCopy, trimCopy, strip_of_plain rules.2.2, if_pos rfl,
          strip_of_plain (map.values key value stored)]
      have after : later.filterMap (valueOf key) = [] := by
        refine List.filterMap_eq_nil_iff.mpr fun other member => ?_
        cases found : valueOf key other with
        | none => rfl
        | some replaced =>
            have inside : other ∈ segments := by
              rw [whole]
              exact List.mem_append_right _ (List.mem_cons_of_mem _ member)
            rcases writes.writesField_of_valueOf inside nonempty found with ⟨-, given, again⟩
            exact absurd again (latest other member given)
      rw [whole, List.filterMap_append, List.filterMap_cons_some here, after,
        List.getLast?_concat]

end Writes

/-- Every text that writes a map is read back as this map. -/
theorem parse_written (map : RequestMap) {segments : List Text} (writes : Writes map segments) :
    parseKeyValueRequest ([segmentEnd].intercalate segments) = map.fields.lookup := by
  funext key
  by_cases blank : key = []
  · subst blank
    have absent : ([] : Text) ∉ map.fields := fun known => (map.keys [] known).1 rfl
    rw [parse_blank, Finmap.lookup_eq_none.mpr absent]
  · rw [parse_joined writes.undelimited blank, writes.getLast?_eq blank]

theorem plainText_of_all {text : Text}
    (all : text.all (fun byte => byte != segmentEnd && !isspace byte) = true) : PlainText text := by
  refine plain_of_solid fun byte member => ?_
  simpa using List.all_eq_true.mp all byte member

/-- A token with an `=` in it, and an empty target. -/
def labFields : RequestMap where
  fields := (Finmap.singleton (literal "token") (literal "a=b")).insert (literal "target") []
  keys := by
    intro key known
    rcases Finmap.mem_insert.mp known with rfl | known
    · exact ⟨by decide, by decide, plainText_of_all (by decide)⟩
    · rw [(Finmap.mem_singleton _ _ _).mp known]
      exact ⟨by decide, by decide, plainText_of_all (by decide)⟩
  values := by
    intro key value stored
    by_cases target : key = literal "target"
    · rw [target, Finmap.lookup_insert, Option.some.injEq] at stored
      exact stored ▸ plainText_of_all (by decide)
    · rw [Finmap.lookup_insert_of_ne _ target] at stored
      have token := (Finmap.mem_singleton _ _ _).mp (Finmap.mem_of_lookup_eq_some stored)
      rw [token, Finmap.lookup_singleton_eq, Option.some.injEq] at stored
      exact stored ▸ plainText_of_all (by decide)

/-- The map above, sent with an old token, a segment without `=` and one with a blank key. -/
theorem parse_written_untidy :
    parseKeyValueRequest (literal "token=old;hello; target =; = x;token= a=b ") =
      labFields.fields.lookup := by
  have joined : literal "token=old;hello; target =; = x;token= a=b " =
      [segmentEnd].intercalate [literal "token=old", literal "hello", literal " target =",
        literal " = x", literal "token= a=b "] := by decide
  have spaced : ∀ (before after : String) {text padded : Text},
      (literal before).all isspace = true -> (literal after).all isspace = true ->
      padded = literal before ++ text ++ literal after -> Padded text padded :=
    fun before after _ _ blankBefore blankAfter whole =>
      ⟨literal before, literal after, List.all_eq_true.mp blankBefore,
        List.all_eq_true.mp blankAfter, whole⟩
  have oldToken : WritesField (literal "token") (literal "old") (literal "token=old") :=
    ⟨literal "token", literal "old", spaced "" "" rfl rfl (by decide),
      spaced "" "" rfl rfl (by decide), by decide⟩
  have target : WritesField (literal "target") [] (literal " target =") :=
    ⟨literal " target ", [], spaced " " " " rfl rfl (by decide), spaced "" "" rfl rfl (by decide),
      by decide⟩
  have blank : WritesField [] (literal "x") (literal " = x") :=
    ⟨literal " ", literal " x", spaced " " "" rfl rfl (by decide),
      spaced " " "" rfl rfl (by decide), by decide⟩
  have token : WritesField (literal "token") (literal "a=b") (literal "token= a=b ") :=
    ⟨literal "token", literal " a=b ", spaced "" "" rfl rfl (by decide),
      spaced " " " " rfl rfl (by decide), by decide⟩
  have hasTarget : literal "target" ∈ labFields.fields := Finmap.mem_insert.mpr (.inl rfl)
  have hasToken : literal "token" ∈ labFields.fields :=
    Finmap.mem_insert.mpr (.inr ((Finmap.mem_singleton _ _ _).mpr rfl))
  rw [joined]
  refine parse_written labFields ⟨?_, ?_⟩
  · simp only [List.forall_mem_cons, List.not_mem_nil, false_imp_iff, implies_true, and_true]
    refine ⟨.inr ⟨_, hasToken, _, by decide, oldToken⟩, .inl ⟨by decide, .inl (by decide)⟩,
      .inr ⟨_, hasTarget, _, by decide, target⟩, .inl ⟨by decide, .inr ⟨_, blank⟩⟩,
      .inr ⟨_, hasToken, _, by decide, token⟩⟩
  · intro key value stored
    by_cases isTarget : key = literal "target"
    · subst isTarget
      rw [labFields, Finmap.lookup_insert, Option.some.injEq] at stored
      refine ⟨[literal "token=old", literal "hello"], literal " target =",
        [literal " = x", literal "token= a=b "], rfl, stored ▸ target, ?_⟩
      intro other later replaced writes
      have found := writes.valueOf_eq (by decide) (literal "target")
      have missing : valueOf (literal "target") other = none := by
        simp only [List.mem_cons, List.not_mem_nil, or_false] at later
        rcases later with rfl | rfl
        · decide
        · decide
      rw [missing, if_pos (by decide)] at found
      cases found
    · rw [labFields, Finmap.lookup_insert_of_ne _ isTarget] at stored
      have isToken := (Finmap.mem_singleton _ _ _).mp (Finmap.mem_of_lookup_eq_some stored)
      subst isToken
      rw [Finmap.lookup_singleton_eq, Option.some.injEq] at stored
      exact ⟨[literal "token=old", literal "hello", literal " target =", literal " = x"],
        literal "token= a=b ", [], rfl, stored ▸ token, fun _ none => by cases none⟩

end SwarmBridge
