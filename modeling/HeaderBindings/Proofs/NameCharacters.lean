/-
Module: HeaderBindings.Proofs.NameCharacters
Purpose: Which characters of a text its bound name has: all but blanks and underscores are kept, and only
  underscores are added; which one comes first; and that no keyword is bound.
Main exports: Spelling.mem_bindingChars_iff, Spelling.head?_bindingChars, Spelling.isKeyword_bindingChars,
  Spelling.bindingChars_eq_nil_iff, Plain, plain_bindingName, star_mem_bindingName_iff
-/
import Mathlib.Data.List.TakeWhile
import HeaderBindings.Spelling.Identifier

namespace HeaderBindings

namespace Text

variable {test : Char → Bool} {text : List Char} {c : Char}

/-- Dropping characters at the start keeps those that fail the test. -/
theorem mem_dropWhile_of_mem (member : c ∈ text) (kept : test c = false) :
    c ∈ text.dropWhile test := by
  have cut : text.takeWhile test ++ text.dropWhile test = text := List.takeWhile_append_dropWhile
  rw [← cut, List.mem_append] at member
  refine member.resolve_left fun dropped => ?_
  have passed := List.mem_takeWhile_imp dropped
  simp [kept] at passed

theorem mem_dropEndWhile_of_mem (member : c ∈ text) (kept : test c = false) :
    c ∈ dropEndWhile test text :=
  List.mem_reverse.mpr (mem_dropWhile_of_mem (List.mem_reverse.mpr member) kept)

theorem mem_of_mem_dropEndWhile (member : c ∈ dropEndWhile test text) : c ∈ text :=
  List.mem_reverse.mp ((List.dropWhile_sublist _).mem (List.mem_reverse.mp member))

theorem mem_strip_of_mem (member : c ∈ text) (solid : isBlank c = false) : c ∈ strip text :=
  mem_dropEndWhile_of_mem (mem_dropWhile_of_mem member solid) solid

theorem mem_of_mem_strip (member : c ∈ strip text) : c ∈ text :=
  (List.dropWhile_sublist _).mem (mem_of_mem_dropEndWhile member)

end Text

namespace Spelling

open Text

variable {text : List Char} {c : Char}

theorem mem_of_mem_collapseUnderscores (member : c ∈ collapseUnderscores text) : c ∈ text := by
  fun_induction collapseUnderscores text with
  | case1 rest ih => exact List.mem_cons_of_mem _ (ih member)
  | case2 first rest _ ih =>
      rcases List.mem_cons.mp member with rfl | later
      · exact List.mem_cons_self
      · exact List.mem_cons_of_mem _ (ih later)
  | case3 => cases member

theorem mem_collapseUnderscores_of_mem (member : c ∈ text) : c ∈ collapseUnderscores text := by
  fun_induction collapseUnderscores text with
  | case1 rest ih => exact ih (by simpa using member)
  | case2 first rest _ ih =>
      rcases List.mem_cons.mp member with rfl | later
      · exact List.mem_cons_self
      · exact List.mem_cons_of_mem _ (ih later)
  | case3 => cases member

/-- A character that is no underscore is in the bound name if it is in the text without its outer blanks,
and only then. -/
theorem mem_bindingChars_iff (letter : c ≠ '_') : c ∈ bindingChars text ↔ c ∈ strip text := by
  have stripped : c ∈ collapseUnderscores (stripUnderscores (strip text)) ↔ c ∈ strip text := by
    have notUnderscore : (c == '_') = false := by simpa using letter
    constructor
    · intro member
      exact (List.dropWhile_sublist _).mem
        (mem_of_mem_dropEndWhile (mem_of_mem_collapseUnderscores member))
    · intro member
      exact mem_collapseUnderscores_of_mem
        (mem_dropEndWhile_of_mem (mem_dropWhile_of_mem member notUnderscore) notUnderscore)
  unfold bindingChars
  dsimp only
  split
  · rw [List.mem_append, stripped]
    simp [letter]
  · exact stripped

theorem head?_collapseUnderscores (text : List Char) :
    (collapseUnderscores text).head? = text.head? := by
  fun_induction collapseUnderscores text with
  | case1 rest ih => simpa using ih
  | case2 first rest _ _ => rfl
  | case3 => rfl

/-- Dropping characters at the end keeps the first one if it fails the test. -/
theorem head?_dropEndWhile {test : Char → Bool} (first : text.head? = some c) (kept : test c = false) :
    (dropEndWhile test text).head? = some c := by
  have start : dropEndWhile test text <+: text := by
    rw [dropEndWhile, ← List.reverse_suffix, List.reverse_reverse]
    exact List.dropWhile_suffix test
  have stays : c ∈ dropEndWhile test text := mem_dropEndWhile_of_mem (List.mem_of_head? first) kept
  obtain ⟨rest, cut⟩ := start
  cases isFront : dropEndWhile test text with
  | nil =>
      rw [isFront] at stays
      cases stays
  | cons d front =>
      rw [← cut, isFront] at first
      exact first

/-- A text between underscores begins with its first character that is no underscore, if there is any. -/
theorem head?_stripUnderscores (text : List Char) :
    (stripUnderscores text).head? = text.find? (· != '_') := by
  have first : (text.dropWhile (· == '_')).head? = text.find? (· != '_') := by
    simp [List.find?_eq_head?_dropWhile_not, bne]
  cases isFirst : text.find? (· != '_') with
  | none =>
      have none_ : text.dropWhile (· == '_') = [] := by
        rw [← List.head?_eq_none_iff, first, isFirst]
      rw [stripUnderscores, none_]
      rfl
  | some c =>
      have other : (c == '_') = false := by simpa using List.find?_some isFirst
      exact head?_dropEndWhile (first.trans isFirst) other

/-- No keyword ends with an underscore. -/
theorem isKeyword_append_underscore (text : List Char) : isKeyword (text ++ ['_']) = false := by
  have ends : ∀ keyword ∈ keywords, keyword.toList.getLast? ≠ some '_' := by decide
  rw [isKeyword, List.any_eq_false]
  intro keyword member same
  rw [beq_iff_eq] at same
  apply ends keyword member
  rw [same, List.getLast?_append, List.getLast?_singleton, Option.some_or]

/-- A bound name is no keyword. -/
theorem isKeyword_bindingChars (text : List Char) : isKeyword (bindingChars text) = false := by
  unfold bindingChars
  dsimp only
  split
  · exact isKeyword_append_underscore _
  · rename_i other
    simpa using other

/-- A bound name begins with the first character of the text, without its outer blanks, that is no
underscore. -/
theorem head?_bindingChars (text : List Char) :
    (bindingChars text).head? = (strip text).find? (· != '_') := by
  rw [← head?_stripUnderscores, ← head?_collapseUnderscores (stripUnderscores (strip text))]
  unfold bindingChars
  dsimp only
  split
  · rename_i isKeyword_
    cases name : collapseUnderscores (stripUnderscores (strip text)) with
    | nil =>
        rw [name] at isKeyword_
        exact absurd isKeyword_ (by decide)
    | cons first rest => rfl
  · rfl

/-- A bound name does not start with an underscore. -/
theorem head?_bindingChars_ne (text : List Char) : (bindingChars text).head? ≠ some '_' := by
  intro isFirst
  rw [head?_bindingChars] at isFirst
  simpa using List.find?_some isFirst

/-- Nothing is bound for a text of underscores between blanks, and only for such a text. -/
theorem bindingChars_eq_nil_iff : bindingChars text = [] ↔ ∀ c ∈ strip text, c = '_' := by
  rw [← List.head?_eq_none_iff, head?_bindingChars, List.find?_eq_none]
  simp

end Spelling

/-! ### Plain texts -/

/-- Neither blanks nor stars are in a text. -/
def Plain (text : String) : Prop := ∀ c ∈ text.toList, Text.isBlank c = false ∧ c ≠ '*'

instance (text : String) : Decidable (Plain text) :=
  List.decidableBAll (fun c => Text.isBlank c = false ∧ c ≠ '*') text.toList

open Spelling

theorem star_mem_bindingName_iff {text : String} :
    '*' ∈ (bindingName text).toList ↔ '*' ∈ text.toList := by
  rw [bindingName, String.toList_ofList, mem_bindingChars_iff (by decide)]
  exact ⟨Text.mem_of_mem_strip, fun member => Text.mem_strip_of_mem member (by decide)⟩

theorem plain_bindingName {text : String} (plain : Plain text) : Plain (bindingName text) := by
  intro c member
  rw [bindingName, String.toList_ofList] at member
  by_cases underscore : c = '_'
  · subst underscore
    decide
  · exact plain c (Text.mem_of_mem_strip ((mem_bindingChars_iff underscore).mp member))

end HeaderBindings
