import Mathlib.Data.List.DropRight

namespace SwarmBridge
namespace Foundation

/-!
# Delimited text

Stripping blanks off the ends of a text, reading it piece by piece up to a
delimiter, and cutting a piece at its first separator, over an arbitrary alphabet.  A
reader made of these three functions can only return values of one shape:
without the delimiter and without a blank at either end.  `Plain` is that shape,
and a writer that joins plain values is read back exactly.
-/

variable {α : Type*}

/-! ## Blanks at the ends -/

/-- The text without the blanks at its two ends. -/
def strip (blank : α -> Bool) (text : List α) : List α :=
  (text.dropWhile blank).rdropWhile blank

/-- A text that a delimited reader returns as it is. -/
structure Plain (delimiter : α) (blank : α -> Bool) (text : List α) : Prop where
  undelimited : delimiter ∉ text
  starts : ∀ first ∈ text.head?, blank first = false
  ends : ∀ last ∈ text.getLast?, blank last = false

variable {delimiter separator : α} {blank : α -> Bool}

theorem strip_subset (text : List α) : strip blank text ⊆ text := fun _ member =>
  (List.dropWhile_sublist blank).subset ((List.rdropWhile_prefix blank _).subset member)

/-- A text with neither the delimiter nor a blank anywhere is plain. -/
theorem plain_of_solid {text : List α}
    (solid : ∀ element ∈ text, element ≠ delimiter ∧ blank element = false) :
    Plain delimiter blank text where
  undelimited := fun member => (solid delimiter member).1 rfl
  starts := fun first starts => (solid first (List.mem_of_mem_head? starts)).2
  ends := fun last ends => (solid last (List.mem_of_mem_getLast? ends)).2

theorem strip_starts (text : List α) : ∀ first ∈ (strip blank text).head?, blank first = false := by
  intro first starts
  have front : (text.dropWhile blank).head? = some first := by
    rcases List.rdropWhile_prefix blank (text.dropWhile blank) with ⟨dropped, whole⟩
    rw [← whole, List.head?_append]
    exact congrArg (Option.or · dropped.head?) starts
  have kept := List.head?_dropWhile_not blank text
  rw [front] at kept
  simpa using kept

theorem strip_ends (text : List α) : ∀ last ∈ (strip blank text).getLast?, blank last = false := by
  intro last ends
  have nonempty : strip blank text ≠ [] := by
    rintro empty
    rw [empty] at ends
    cases ends
  have kept := List.rdropWhile_last_not blank (text.dropWhile blank) nonempty
  rw [List.getLast?_eq_some_getLast nonempty] at ends
  cases ends
  exact Bool.eq_false_iff.mpr kept

/-- A text that neither starts nor ends with a blank is left as it is. -/
theorem strip_of_edges {text : List α} (starts : ∀ first ∈ text.head?, blank first = false)
    (ends : ∀ last ∈ text.getLast?, blank last = false) : strip blank text = text := by
  have kept : text.dropWhile blank = text := by
    apply List.dropWhile_eq_self_iff.mpr
    intro nonempty dropped
    have front : text.head? = some text[0] := by
      rw [List.head?_eq_getElem?, List.getElem?_eq_getElem nonempty]
    rw [starts _ front] at dropped
    cases dropped
  rw [strip, kept]
  apply List.rdropWhile_eq_self_iff.mpr
  intro nonempty dropped
  rw [ends _ (List.getLast?_eq_some_getLast nonempty)] at dropped
  cases dropped

theorem strip_strip (text : List α) : strip blank (strip blank text) = strip blank text :=
  strip_of_edges (strip_starts text) (strip_ends text)

theorem strip_of_plain {text : List α} (plain : Plain delimiter blank text) :
    strip blank text = text :=
  strip_of_edges plain.starts plain.ends

/-- What stripping takes off are blanks. -/
theorem strip_padding (text : List α) : ∃ before after, text = before ++ strip blank text ++ after ∧
    (∀ element ∈ before, blank element = true) ∧ ∀ element ∈ after, blank element = true := by
  refine ⟨text.takeWhile blank, (text.dropWhile blank).rtakeWhile blank, ?_, ?_, ?_⟩
  · rw [List.append_assoc, strip, List.rdropWhile_append_rtakeWhile, List.takeWhile_append_dropWhile]
  · exact fun element member => List.mem_takeWhile_imp member
  · exact fun element member => List.mem_rtakeWhile_imp member

/-- Stripping a text without the delimiter leaves a plain text. -/
theorem plain_strip {text : List α} (clean : delimiter ∉ text) :
    Plain delimiter blank (strip blank text) where
  undelimited := fun member => clean (strip_subset text member)
  starts := strip_starts text
  ends := strip_ends text

/-- Blanks around a text make no difference to stripping. -/
theorem strip_padded {before after : List α} (text : List α)
    (blankBefore : ∀ element ∈ before, blank element = true)
    (blankAfter : ∀ element ∈ after, blank element = true) :
    strip blank (before ++ text ++ after) = strip blank text := by
  have front : (before ++ text ++ after).dropWhile blank = (text ++ after).dropWhile blank := by
    rw [List.append_assoc, List.dropWhile_append_of_pos blankBefore]
  have back : ∀ kept : List α, (kept ++ after).rdropWhile blank = kept.rdropWhile blank := by
    intro kept
    rw [List.rdropWhile, List.reverse_append, List.dropWhile_append_of_pos, List.rdropWhile]
    exact fun element member => blankAfter element (List.mem_reverse.mp member)
  rw [strip, front, List.dropWhile_append]
  split_ifs with empty
  · -- nothing but blanks
    rw [List.dropWhile_eq_nil_iff.mpr blankAfter, strip, List.isEmpty_iff.mp empty]
  · exact back _

variable [DecidableEq α]

/-! ## Pieces -/

/-- What repeated reading up to a delimiter yields.  A delimiter at the very end
of the text opens no further piece. -/
def pieces (delimiter : α) : List α -> List (List α)
  | [] => []
  | head :: rest =>
      if head = delimiter then [] :: pieces delimiter rest
      else
        match pieces delimiter rest with
        | [] => [[head]]
        | piece :: others => (head :: piece) :: others

theorem pieces_cons_of_ne {head : α} (different : head ≠ delimiter) (rest : List α) :
    pieces delimiter (head :: rest) =
      match pieces delimiter rest with
      | [] => [[head]]
      | piece :: others => (head :: piece) :: others := by
  rw [pieces, if_neg different]

/-- A text without the delimiter is one piece, unless it is empty. -/
theorem pieces_single {piece : List α} (clean : delimiter ∉ piece) (nonempty : piece ≠ []) :
    pieces delimiter piece = [piece] := by
  induction piece with
  | nil => exact absurd rfl nonempty
  | cons head rest ih =>
      have apart := List.ne_and_not_mem_of_not_mem_cons clean
      rw [pieces_cons_of_ne (Ne.symm apart.1)]
      cases rest with
      | nil => rfl
      | cons next rest => rw [ih apart.2 (List.cons_ne_nil next rest)]

/-- The first delimiter ends the first piece. -/
theorem pieces_append {piece : List α} (clean : delimiter ∉ piece) (rest : List α) :
    pieces delimiter (piece ++ delimiter :: rest) = piece :: pieces delimiter rest := by
  induction piece with
  | nil => rw [List.nil_append, pieces, if_pos rfl]
  | cons head piece ih =>
      have apart := List.ne_and_not_mem_of_not_mem_cons clean
      rw [List.cons_append, pieces_cons_of_ne (Ne.symm apart.1), ih apart.2]

theorem undelimited_of_mem_pieces {text piece : List α} (member : piece ∈ pieces delimiter text) :
    delimiter ∉ piece := by
  induction text generalizing piece with
  | nil => cases member
  | cons head rest ih =>
      by_cases same : head = delimiter
      · rw [pieces, if_pos same] at member
        rcases List.mem_cons.mp member with rfl | later
        · exact List.not_mem_nil
        · exact ih later
      · rw [pieces_cons_of_ne same] at member
        cases split : pieces delimiter rest with
        | nil =>
            rw [split] at member
            rw [List.mem_singleton.mp member]
            simpa using Ne.symm same
        | cons first others =>
            rw [split] at member ih
            rcases List.mem_cons.mp member with rfl | later
            · exact List.not_mem_cons_of_ne_of_not_mem (Ne.symm same) (ih List.mem_cons_self)
            · exact ih (List.mem_cons_of_mem first later)

/-- The pieces of joined texts are these texts, except that an empty last text opens
no piece. -/
theorem pieces_joined {texts : List (List α)} (clean : ∀ text ∈ texts, delimiter ∉ text) :
    ∃ rest, pieces delimiter ([delimiter].intercalate texts) ++ rest = texts ∧
      ∀ text ∈ rest, text = [] := by
  induction texts with
  | nil => exact ⟨[], rfl, fun _ member => by cases member⟩
  | cons text texts ih =>
      have here := clean text List.mem_cons_self
      cases texts with
      | nil =>
          rw [List.intercalate_singleton]
          by_cases empty : text = []
          · subst empty
            exact ⟨[[]], rfl, fun _ member => List.mem_singleton.mp member⟩
          · refine ⟨[], ?_, fun _ member => by cases member⟩
            rw [pieces_single here empty, List.append_nil]
      | cons next texts =>
          rcases ih fun text member => clean text (List.mem_cons_of_mem _ member)
              with ⟨rest, whole, blank⟩
          refine ⟨rest, ?_, blank⟩
          rw [List.intercalate_cons_cons, List.append_assoc, List.singleton_append,
            pieces_append here, List.cons_append, whole]

/-- The pieces of joined texts that are not empty are these texts. -/
theorem pieces_intercalate {texts : List (List α)} (clean : ∀ text ∈ texts, delimiter ∉ text)
    (nonempty : ∀ text ∈ texts, text ≠ []) :
    pieces delimiter ([delimiter].intercalate texts) = texts := by
  rcases pieces_joined clean with ⟨rest, whole, blank⟩
  have none_left : rest = [] := List.eq_nil_iff_forall_not_mem.mpr fun text member =>
    nonempty text (whole ▸ List.mem_append_right _ member) (blank text member)
  rwa [none_left, List.append_nil] at whole

/-! ## The first separator -/

/-- The parts of a piece before and after its first separator. -/
def splitFirst (separator : α) : List α -> Option (List α × List α)
  | [] => none
  | head :: rest =>
      if head = separator then some ([], rest)
      else (splitFirst separator rest).map fun parts => (head :: parts.1, parts.2)

theorem splitFirst_append {key : List α} (clean : separator ∉ key) (value : List α) :
    splitFirst separator (key ++ separator :: value) = some (key, value) := by
  induction key with
  | nil => rw [List.nil_append, splitFirst, if_pos rfl]
  | cons head key ih =>
      have apart := List.ne_and_not_mem_of_not_mem_cons clean
      rw [List.cons_append, splitFirst, if_neg (Ne.symm apart.1), ih apart.2, Option.map_some]

theorem splitFirst_eq_none {text : List α} (clean : separator ∉ text) :
    splitFirst separator text = none := by
  induction text with
  | nil => rfl
  | cons head rest ih =>
      have apart := List.ne_and_not_mem_of_not_mem_cons clean
      rw [splitFirst, if_neg (Ne.symm apart.1), ih apart.2, Option.map_none]

theorem splitFirst_eq_some {text key value : List α}
    (split : splitFirst separator text = some (key, value)) :
    text = key ++ separator :: value := by
  induction text generalizing key with
  | nil => cases split
  | cons head rest ih =>
      by_cases same : head = separator
      · rw [splitFirst, if_pos same] at split
        cases split
        rw [same, List.nil_append]
      · rw [splitFirst, if_neg same] at split
        rcases Option.map_eq_some_iff.mp split with ⟨⟨before, after⟩, parts, whole⟩
        cases whole
        rw [ih parts, List.cons_append]

end Foundation
end SwarmBridge
