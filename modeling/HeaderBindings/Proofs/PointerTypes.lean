/-
Module: HeaderBindings.Proofs.PointerTypes
Purpose: A C type with stars written after it names the type with one pointer for each star, but that
  pointers to `void`, `char` and `wchar_t` have names of their own.
Main exports: Spelling.Starred, Spelling.Starred.splitPointerChars_eq, Spelling.exprOfWords,
  Spelling.Starred.typeExpr_eq, Spelling.typeExpr_stars_eq_none_iff, Spelling.typeText_of_stars
-/
import HeaderBindings.Proofs.FieldConstants
import HeaderBindings.Proofs.IntegerLiterals

namespace HeaderBindings

/-! ### Words and blanks -/

namespace Text

theorem words_dropWhile_blank (text : List Char) : words (text.dropWhile isBlank) = words text := by
  induction text with
  | nil => rfl
  | cons c rest ih =>
      cases blank : isBlank c with
      | false => simp [blank]
      | true => rw [List.dropWhile_cons_of_pos blank, ih, words, words, wordsFrom, blank]; rfl

theorem words_append_blanks {blanks : List Char} (areBlanks : ∀ c ∈ blanks, isBlank c = true)
    (text : List Char) : words (text ++ blanks) = words text := by
  induction blanks generalizing text with
  | nil => rw [List.append_nil]
  | cons c rest ih =>
      rw [List.forall_mem_cons] at areBlanks
      rw [words, wordsFrom_append_blank areBlanks.1]
      have nothing := ih areBlanks.2 []
      rw [List.nil_append] at nothing
      rw [← words, ← words, nothing]
      exact List.append_nil _

/-- Outer blanks belong to no word. -/
theorem words_strip (text : List Char) : words (strip text) = words text := by
  have whole : strip text ++ ((text.dropWhile isBlank).reverse.takeWhile isBlank).reverse
      = text.dropWhile isBlank := by
    rw [strip, stripRight, dropEndWhile, stripLeft, ← List.reverse_append,
      List.takeWhile_append_dropWhile, List.reverse_reverse]
  have areBlanks : ∀ c ∈ ((text.dropWhile isBlank).reverse.takeWhile isBlank).reverse,
      isBlank c = true :=
    fun c member => List.mem_takeWhile_imp (List.mem_reverse.mp member)
  rw [← words_dropWhile_blank text, ← whole, words_append_blanks areBlanks]

end Text

namespace Spelling

open Text

/-! ### Pointers after a type -/

/-- A text is a C type with a number of stars after it, and with any blanks before, between and after the
stars. -/
inductive Starred (body : List Char) : Nat → List Char → Prop where
  | bare : Starred body 0 body
  | blank {depth : Nat} {text : List Char} {c : Char} (before : Starred body depth text)
      (blank : isBlank c = true) : Starred body depth (text ++ [c])
  | star {depth : Nat} {text : List Char} (before : Starred body depth text) :
      Starred body (depth + 1) (text ++ ['*'])

theorem dropStars_of_blank {c : Char} (blank : isBlank c = true) (rest : List Char) :
    dropStars (c :: rest) = dropStars rest := by
  have notStar : (c == '*') = false := by
    rw [beq_eq_false_iff_ne]
    rintro rfl
    exact absurd blank (by decide)
  rw [dropStars, notStar, if_neg (by decide), if_pos blank]

theorem dropStars_dropWhile_blank (text : List Char) :
    dropStars (text.dropWhile isBlank) = dropStars text := by
  induction text with
  | nil => rfl
  | cons c rest ih =>
      cases blank : isBlank c with
      | false => rw [List.dropWhile_cons_of_neg (by simp [blank])]
      | true => rw [List.dropWhile_cons_of_pos blank, ih, dropStars_of_blank blank]

/-- Without a star first nothing but blanks is dropped. -/
theorem dropStars_of_starless {text : List Char}
    (starless : (text.dropWhile isBlank).head? ≠ some '*') :
    dropStars text = (text.dropWhile isBlank, 0) := by
  rw [← dropStars_dropWhile_blank]
  cases left : text.dropWhile isBlank with
  | nil => rfl
  | cons c rest =>
      rw [left] at starless
      have notStar : (c == '*') = false := by simpa using starless
      have solid : isBlank c = false := by
        have fails := List.head?_dropWhile_not isBlank text
        rw [left] at fails
        exact fails
      rw [dropStars, notStar, solid, if_neg Bool.false_ne_true, if_neg Bool.false_ne_true]

namespace Starred

variable {body text : List Char} {depth : Nat}

theorem dropWhile_blank (starred : Starred body depth text) :
    Starred (body.dropWhile isBlank) depth (text.dropWhile isBlank) := by
  induction starred with
  | bare => exact .bare
  | @blank depth text c _ isBlank_ ih =>
      rw [List.dropWhile_append]
      split
      · rename_i empty
        rw [List.isEmpty_iff.mp empty] at ih
        rw [List.dropWhile_cons_of_pos isBlank_]
        exact ih
      · exact .blank ih isBlank_
  | @star depth text _ ih =>
      rw [List.dropWhile_append]
      split
      · rename_i empty
        rw [List.isEmpty_iff.mp empty] at ih
        exact .star ih
      · exact .star ih

/-- From the end, the stars are dropped and counted before the type. -/
theorem dropStars_reverse (starred : Starred body depth text) :
    dropStars text.reverse = ((dropStars body.reverse).1, (dropStars body.reverse).2 + depth) := by
  induction starred with
  | bare => rfl
  | blank _ isBlank_ ih =>
      rw [List.reverse_append, List.reverse_singleton, List.singleton_append, dropStars_of_blank isBlank_]
      exact ih
  | star _ ih =>
      rw [List.reverse_append, List.reverse_singleton, List.singleton_append, dropStars, ih]
      rfl

/-- A type that does not end with a star, and the stars after it, are split into the two. -/
theorem splitPointerChars_eq (starred : Starred body depth text)
    (starless : (strip body).getLast? ≠ some '*') : splitPointerChars text = (strip body, depth) := by
  have reversed : ∀ given : List Char,
      (strip given).reverse = (given.dropWhile isBlank).reverse.dropWhile isBlank := by
    intro given
    rw [strip, stripRight, dropEndWhile, stripLeft, List.reverse_reverse]
  have ended : (((body.dropWhile isBlank).reverse).dropWhile isBlank).head? ≠ some '*' := by
    rwa [← reversed, List.head?_reverse]
  rw [splitPointerChars, reversed, dropStars_dropWhile_blank, starred.dropWhile_blank.dropStars_reverse,
    dropStars_of_starless ended, ← reversed, Nat.zero_add]
  dsimp only
  rw [List.reverse_reverse]

end Starred

/-- What is written for pointers is a number of stars. -/
theorem starred_stars (text : List Char) (depth : Nat) :
    Starred text depth (text ++ (Capture.stars depth).toList) := by
  have stars : ∀ {given : List Char}, Starred text 0 given → ∀ depth,
      Starred text depth (given ++ List.replicate depth '*') := by
    intro given starless depth
    induction depth with
    | zero => rwa [List.replicate_zero, List.append_nil]
    | succ depth ih =>
        rw [List.replicate_succ', ← List.append_assoc]
        exact .star ih
  unfold Capture.stars
  split
  · rename_i none_
    rw [eq_of_beq none_]
    exact stars .bare 0
  · have spaced : Starred text 0 (text ++ [' ']) := .blank .bare (by decide)
    have whole := stars spaced depth
    rw [String.toList_ofList]
    rwa [List.append_assoc, List.singleton_append] at whole

/-! ### The expression of a type with pointers -/

/-- Words name no type exactly if `void` is the only one. -/
theorem nameOfWords_eq_none_iff {names : List String} :
    nameOfWords names = .ok none ↔ names = ["void"] := by
  constructor
  · intro noName
    unfold nameOfWords at noName
    generalize scalarNames = scalars at noName
    split at noName
    · cases noName
    · dsimp only at noName
      split at noName
      · rename_i spelled
        exact (intercalate_eq_word_iff (by decide) (by decide)).mp (eq_of_beq spelled)
      · split at noName
        · cases noName
        · split at noName
          · split at noName <;> cases noName
          · cases noName
  · rintro rfl
    rfl

/-- The type expression of words with a number of pointers; pointers to `void`, `char` and `wchar_t` have
names of their own. -/
def exprOfWords (names : List String) : Nat → Except UnknownSize (Option TypeExpr)
  | 0 => (nameOfWords names).map (·.map .named)
  | depth + 1 =>
      match pointerNames.lookup (String.intercalate " " names) with
      | some name => .ok (some ((TypeExpr.named name).pointers depth))
      | none => (nameOfWords names).map fun name =>
          some ((TypeExpr.named (name.getD "None")).pointers (depth + 1))

theorem typeWords_strip (text : List Char) : typeWords (strip text) = typeWords text := by
  rw [typeWords, words_strip, ← typeWords]

/-- The expression of a type with stars is given by its words and the number of stars. -/
theorem Starred.typeExpr_eq {body text : String} {depth : Nat}
    (starred : Starred body.toList depth text.toList)
    (starless : (strip body.toList).getLast? ≠ some '*') :
    typeExpr text = exprOfWords (typeWords body.toList) depth := by
  rw [typeExpr, starred.splitPointerChars_eq starless]
  dsimp only
  rw [typeWords_strip]
  cases depth <;> rfl

/-- A type with pointers after it stands for no value exactly if there are none and it is plain `void`. -/
theorem typeExpr_stars_eq_none_iff {text : String} {depth : Nat} {type : Option TypeExpr}
    (starless : '*' ∉ text.toList) (typed : typeExpr (text ++ Capture.stars depth) = .ok type) :
    type = none ↔ depth = 0 ∧ typeWords text.toList = ["void"] := by
  have starred : Starred text.toList depth (text ++ Capture.stars depth).toList := by
    rw [String.toList_append]
    exact starred_stars text.toList depth
  have ends : (strip text.toList).getLast? ≠ some '*' := fun isLast =>
    starless (mem_of_mem_strip (List.mem_of_getLast? isLast))
  rw [starred.typeExpr_eq ends] at typed
  cases depth with
  | zero =>
      rw [← nameOfWords_eq_none_iff]
      cases named : nameOfWords (typeWords text.toList) with
      | error fault =>
          rw [exprOfWords, named] at typed
          cases typed
      | ok name =>
          rw [exprOfWords, named] at typed
          obtain rfl := Except.ok.inj typed
          simp
  | succ depth =>
      rw [exprOfWords] at typed
      split at typed
      · obtain rfl := Except.ok.inj typed
        simp
      · cases named : nameOfWords (typeWords text.toList) with
        | error fault =>
            rw [named] at typed
            cases typed
        | ok name =>
            rw [named] at typed
            obtain rfl := Except.ok.inj typed
            simp

/-! ### One pointer for each star -/

/-- The text of the type expression of a C type. -/
def typeText (text : String) : Except UnknownSize (Option String) :=
  (typeExpr text).map (·.map TypeExpr.render)

/-- What the pointers in an expression point to. -/
def TypeExpr.targets : TypeExpr → List TypeExpr
  | named _ => []
  | pointer target => target :: target.targets

theorem TypeExpr.render_pointer (target : TypeExpr) :
    target.pointer.render = "ctypes.POINTER(" ++ target.render ++ ")" := rfl

theorem TypeExpr.prefix_render_pointer (target : TypeExpr) :
    "ctypes.POINTER(".toList <+: target.pointer.render.toList := by
  rw [render_pointer, String.toList_append, String.toList_append, List.append_assoc]
  exact List.prefix_append _ _

/-- No pointer to a named type, however deep, points to what stands for no value. -/
theorem TypeExpr.render_ne_of_mem_targets {name : String} (hasValue : name ≠ "None") {depth : Nat}
    {target : TypeExpr} (member : target ∈ ((named name).pointers depth).targets) :
    target.render ≠ "None" := by
  induction depth with
  | zero => cases member
  | succ depth ih =>
      rcases List.mem_cons.mp member with rfl | deeper
      · cases depth with
        | zero => exact hasValue
        | succ depth =>
            intro same
            have start := ((named name).pointers depth).prefix_render_pointer
            rw [← pointers, same] at start
            exact absurd start (by decide)
      · exact ih deeper

section

variable {names : List String}

theorem lookup_pointerNames {word pointer : String} (listed : (word, pointer) ∈ pointerNames) :
    pointerNames.lookup (String.intercalate " " names) = some pointer ↔ names = [word] := by
  have distinct : ∀ entry ∈ pointerNames,
      ∀ other ∈ pointerNames, entry.2 = other.2 → entry.1 = other.1 := by
    decide
  have found : ∀ entry ∈ pointerNames, pointerNames.lookup entry.1 = some entry.2 := by decide
  have areWords : ∀ entry ∈ pointerNames, entry.1 ≠ "" ∧ ' ' ∉ entry.1.toList := by decide
  rw [← intercalate_eq_word_iff (areWords _ listed).1 (areWords _ listed).2]
  constructor
  · intro isPointer
    exact distinct _ (mem_of_lookup isPointer) _ listed rfl
  · intro spelled
    rw [spelled]
    exact found _ listed

/-- Only words whose pointers have a name of their own are found among these. -/
theorem mem_of_lookup_pointerNames {pointer : String}
    (found : pointerNames.lookup (String.intercalate " " names) = some pointer) :
    names ∈ pointerNames.map fun entry => [entry.1] := by
  have listed := mem_of_lookup found
  exact List.mem_map.mpr ⟨_, listed, ((lookup_pointerNames listed).mp found).symm⟩

/-- The words of a type with a pointer name something, or their pointers have a name of their own. -/
theorem exprOfWords_cases {name : Option String} (named : nameOfWords names = .ok name) :
    (∃ pointer, pointerNames.lookup (String.intercalate " " names) = some pointer ∧
      pointer ≠ "None" ∧
      ∀ depth, exprOfWords names (depth + 1) = .ok (some ((TypeExpr.named pointer).pointers depth))) ∨
    ∃ target, pointerNames.lookup (String.intercalate " " names) = none ∧ name = some target ∧
      target ≠ "None" ∧
      ∀ depth, exprOfWords names depth = .ok (some ((TypeExpr.named target).pointers depth)) := by
  cases found : pointerNames.lookup (String.intercalate " " names) with
  | some pointer =>
      left
      have hasValue : ∀ entry ∈ pointerNames, entry.2 ≠ "None" := by decide
      refine ⟨pointer, rfl, hasValue _ (mem_of_lookup found), fun depth => ?_⟩
      rw [exprOfWords, found]
  | none =>
      right
      cases name with
      | none =>
          rw [nameOfWords_eq_none_iff.mp named] at found
          exact absurd found (by decide)
      | some target =>
          refine ⟨target, rfl, rfl, ?_, fun depth => ?_⟩
          · rcases nameOfWords_cases named with library | ⟨word, _, rfl⟩
            · rintro rfl
              rw [String.startsWith_string_eq_false_iff.mpr (by decide)] at library
              cases library
            · exact bindingName_ne_none word
          · cases depth with
            | zero =>
                rw [exprOfWords, named]
                rfl
            | succ depth =>
                rw [exprOfWords, found, named]
                rfl

end

namespace Starred

variable {body text further : String} {depth : Nat} {name : Option String}

theorem splitPointer_eq (starred : Starred body.toList depth text.toList)
    (starless : (strip body.toList).getLast? ≠ some '*') : splitPointer text = (stripped body, depth) := by
  rw [splitPointer, starred.splitPointerChars_eq starless]
  rfl

theorem declaredName_eq (starred : Starred body.toList depth text.toList)
    (starless : (strip body.toList).getLast? ≠ some '*') (named : baseType body = .ok name) :
    declaredName text = .ok (name.filter fun name => !name.startsWith "ctypes.") := by
  rw [declaredName, starred.splitPointerChars_eq starless, typeWords_strip, ← baseType, named]
  rfl

/-- One more star makes a pointer to what is a pointer. -/
theorem typeText_further (starred : Starred body.toList (depth + 1) text.toList)
    (more : Starred body.toList (depth + 2) further.toList)
    (starless : (strip body.toList).getLast? ≠ some '*') (named : baseType body = .ok name) :
    ∃ type, typeText text = .ok (some type) ∧
      typeText further = .ok (some ("ctypes.POINTER(" ++ type ++ ")")) := by
  rw [typeText, typeText, starred.typeExpr_eq starless, more.typeExpr_eq starless]
  rcases exprOfWords_cases named with ⟨_, _, _, expr⟩ | ⟨_, _, _, _, expr⟩
  · rw [expr, expr]
    exact ⟨_, rfl, rfl⟩
  · rw [expr, expr]
    exact ⟨_, rfl, rfl⟩

/-- A pointer has the name that pointers to a listed word have exactly if the word is the type. -/
theorem typeText_eq_listed_iff (starred : Starred body.toList 1 text.toList)
    (starless : (strip body.toList).getLast? ≠ some '*') (named : baseType body = .ok name)
    {entry : String × String} (listed : entry ∈ pointerNames) :
    typeText text = .ok (some entry.2) ↔ typeWords body.toList = [entry.1] := by
  have notPointers : ∀ entry ∈ pointerNames, ¬ "ctypes.POINTER(".toList <+: entry.2.toList := by decide
  rw [typeText, starred.typeExpr_eq starless, ← lookup_pointerNames listed]
  rcases exprOfWords_cases named with ⟨pointer, found, _, expr⟩ | ⟨target, found, _, _, expr⟩
  · rw [expr 0, found]
    constructor
    · exact Except.ok.inj
    · intro same
      obtain rfl := Option.some.inj same
      rfl
  · rw [expr 1, found]
    constructor
    · intro same
      have pointed : ((TypeExpr.named target).pointers 1).render = entry.2 :=
        Option.some.inj (Except.ok.inj same)
      exact absurd (pointed ▸ TypeExpr.prefix_render_pointer _) (notPointers entry listed)
    · intro same
      cases same

/-- The first star makes a pointer to any type that is none of the listed words. -/
theorem typeText_of_unlisted (starred : Starred body.toList 1 text.toList)
    (starless : (strip body.toList).getLast? ≠ some '*') (named : baseType body = .ok name)
    (other : typeWords body.toList ∉ pointerNames.map fun entry => [entry.1]) :
    ∃ type, typeText body = .ok (some type) ∧
      typeText text = .ok (some ("ctypes.POINTER(" ++ type ++ ")")) := by
  rw [typeText, typeText, starred.typeExpr_eq starless, Starred.bare.typeExpr_eq starless]
  rcases exprOfWords_cases named with ⟨_, found, _, _⟩ | ⟨_, _, _, _, expr⟩
  · exact absurd (mem_of_lookup_pointerNames found) other
  · rw [expr 0, expr 1]
    exact ⟨_, rfl, rfl⟩

theorem render_ne_of_mem_targets (starred : Starred body.toList depth text.toList)
    (starless : (strip body.toList).getLast? ≠ some '*') (named : baseType body = .ok name)
    {type : TypeExpr} (typed : typeExpr text = .ok (some type)) :
    ∀ target ∈ type.targets, target.render ≠ "None" := by
  intro target member
  rw [starred.typeExpr_eq starless] at typed
  rcases exprOfWords_cases named with ⟨_, _, hasValue, expr⟩ | ⟨_, _, _, hasValue, expr⟩
  · cases depth with
    | zero =>
        rw [exprOfWords, ← baseType, named] at typed
        cases name with
        | none => cases typed
        | some name =>
            obtain rfl := Option.some.inj (Except.ok.inj typed)
            cases member
    | succ depth =>
        rw [expr] at typed
        obtain rfl := Option.some.inj (Except.ok.inj typed)
        exact TypeExpr.render_ne_of_mem_targets hasValue member
  · rw [expr] at typed
    obtain rfl := Option.some.inj (Except.ok.inj typed)
    exact TypeExpr.render_ne_of_mem_targets hasValue member

end Starred

/-- A C type that does not end with a star, and has a name or none, is split from the stars after it.
Each star after the first makes a pointer to what the type with the stars before it names. So does the
first one, unless the type is `void`, `char` or `wchar_t` apart from qualifiers: a pointer to these has
a name of its own. So nothing is a pointer to what stands for no value, and the type that is referred to
does not depend on the stars. -/
theorem typeText_of_stars {body : String} {name : Option String}
    (starless : (strip body.toList).getLast? ≠ some '*') (named : baseType body = .ok name) :
    (∀ depth text, Starred body.toList depth text.toList →
      splitPointer text = (stripped body, depth) ∧
      declaredName text = .ok (name.filter fun name => !name.startsWith "ctypes.")) ∧
    (∀ depth text further, Starred body.toList (depth + 1) text.toList →
      Starred body.toList (depth + 2) further.toList →
      ∃ type, typeText text = .ok (some type) ∧
        typeText further = .ok (some ("ctypes.POINTER(" ++ type ++ ")"))) ∧
    (∀ text, Starred body.toList 1 text.toList →
      (∀ entry ∈ [("void", "ctypes.c_void_p"), ("char", "ctypes.c_char_p"),
        ("wchar_t", "ctypes.c_wchar_p")],
        typeText text = .ok (some entry.2) ↔ typeWords body.toList = [entry.1]) ∧
      (typeWords body.toList ∉ [["void"], ["char"], ["wchar_t"]] →
        ∃ type, typeText body = .ok (some type) ∧
          typeText text = .ok (some ("ctypes.POINTER(" ++ type ++ ")")))) ∧
    (∀ depth text type, Starred body.toList depth text.toList → typeExpr text = .ok (some type) →
      ∀ target ∈ type.targets, target.render ≠ "None") := by
  refine ⟨?_, ?_, ?_, ?_⟩
  · intro depth text starred
    exact ⟨starred.splitPointer_eq starless, starred.declaredName_eq starless named⟩
  · intro depth text further starred more
    exact starred.typeText_further more starless named
  · intro text starred
    exact ⟨fun entry listed => starred.typeText_eq_listed_iff starless named listed,
      starred.typeText_of_unlisted starless named⟩
  · intro depth text type starred typed
    exact starred.render_ne_of_mem_targets starless named typed

/-- A pointer to characters has a name of its own, and a pointer to it does not, however the stars and the
qualifier stand. -/
theorem typeText_of_stars_characters :
    (strip "char const".toList).getLast? ≠ some '*' ∧
    baseType "char const" = .ok (some "ctypes.c_char") ∧
    typeText "char const*" = .ok (some "ctypes.c_char_p") ∧
    splitPointer "char const* *\t" = ("char const", 2) ∧
    typeText "char const* *\t" = .ok (some "ctypes.POINTER(ctypes.c_char_p)") := by
  have starless : (strip "char const".toList).getLast? ≠ some '*' := by decide
  have named : baseType "char const" = .ok (some "ctypes.c_char") := rfl
  have one : Starred "char const".toList 1 "char const*".toList := by
    have spelled : "char const*".toList = "char const".toList ++ ['*'] := rfl
    rw [spelled]
    exact .star .bare
  have two : Starred "char const".toList 2 "char const* *\t".toList := by
    have spelled : "char const* *\t".toList = "char const*".toList ++ [' '] ++ ['*'] ++ ['\t'] := rfl
    rw [spelled]
    exact .blank (.star (.blank one (by decide))) (by decide)
  obtain ⟨splits, deeper, single, _⟩ := typeText_of_stars starless named
  have first : typeText "char const*" = .ok (some "ctypes.c_char_p") :=
    ((single _ one).1 ("char", "ctypes.c_char_p") (by simp)).mpr (by decide)
  obtain ⟨type, isFirst, isSecond⟩ := deeper 0 _ _ one two
  obtain rfl : "ctypes.c_char_p" = type := Option.some.inj (Except.ok.inj (first.symm.trans isFirst))
  exact ⟨starless, named, first, (splits 2 _ two).1, isSecond⟩

end Spelling

end HeaderBindings
