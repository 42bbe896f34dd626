/-
Module: HeaderBindings.Proofs.SizedTypes
Purpose: A C type spelled by words for sizes, in any order and among qualifiers, names the type that the set
  of these words stands for.
Main exports: Spelling.SizedType, Spelling.SizedAs, Spelling.Unsized, Spelling.SizedText,
  Spelling.SameSizes, Spelling.SizedText.baseType_iff
-/
import HeaderBindings.Proofs.PatternGrammar
import HeaderBindings.Proofs.TypeReferences

namespace HeaderBindings.Spelling

open Text

/-! ### Types with sizes -/

/-- The sizes of integers beside characters. -/
inductive IntegerSize where
  | short
  | int
  | long
  | longLong
deriving Repr, DecidableEq

/-- The arithmetic types that words for sizes spell. A character may be signed, unsigned or neither, and
these are three types. -/
inductive SizedType where
  | char
  | signedChar
  | unsignedChar
  | integer (size : IntegerSize) (unsigned : Bool)
  | double
  | longDouble
deriving Repr, DecidableEq

/-- The usual C spelling of an integer with a sign. -/
def IntegerSize.spelling : IntegerSize → String
  | short => "short"
  | int => "int"
  | long => "long"
  | longLong => "long long"

namespace SizedType

/-- The usual C spelling of a type. -/
def spelling : SizedType → String
  | char => "char"
  | signedChar => "signed char"
  | unsignedChar => "unsigned char"
  | integer size false => size.spelling
  | integer size true => "unsigned " ++ size.spelling
  | double => "double"
  | longDouble => "long double"

/-- The name of a type in a generated module. -/
def scalar : SizedType → String
  | char => "ctypes.c_char"
  | signedChar => "ctypes.c_byte"
  | unsignedChar => "ctypes.c_ubyte"
  | integer .short false => "ctypes.c_short"
  | integer .short true => "ctypes.c_ushort"
  | integer .int false => "ctypes.c_int"
  | integer .int true => "ctypes.c_uint"
  | integer .long false => "ctypes.c_long"
  | integer .long true => "ctypes.c_ulong"
  | integer .longLong false => "ctypes.c_longlong"
  | integer .longLong true => "ctypes.c_ulonglong"
  | double => "ctypes.c_double"
  | longDouble => "ctypes.c_longdouble"

end SizedType

/-- Words give an integer a size: `short` is the strongest of them, then `long` twice or more, then `long`
without `double`. -/
inductive IntegerSized (words : List String) : IntegerSize → Prop where
  | short (isShort : "short" ∈ words) : IntegerSized words .short
  | longLong (notShort : "short" ∉ words) (longs : 2 ≤ words.count "long") :
      IntegerSized words .longLong
  | long (notShort : "short" ∉ words) (longs : words.count "long" = 1) (notDouble : "double" ∉ words) :
      IntegerSized words .long
  | int (notShort : "short" ∉ words) (longs : words.count "long" = 0) (notDouble : "double" ∉ words) :
      IntegerSized words .int

/-- Words stand for a type: a character if `char` is among them, whose sign they may give, otherwise an
integer or, with `double` and without a sign, a floating type. -/
inductive SizedAs (words : List String) : SizedType → Prop where
  | char (isChar : "char" ∈ words) (noSign : "signed" ∉ words) (notUnsigned : "unsigned" ∉ words) :
      SizedAs words .char
  | signedChar (isChar : "char" ∈ words) (sign : "signed" ∈ words) : SizedAs words .signedChar
  | unsignedChar (isChar : "char" ∈ words) (noSign : "signed" ∉ words)
      (isUnsigned : "unsigned" ∈ words) :
      SizedAs words .unsignedChar
  | integer {size : IntegerSize} {unsigned : Bool} (notChar : "char" ∉ words)
      (sized : IntegerSized words size) (sign : unsigned = true ↔ "unsigned" ∈ words) :
      SizedAs words (.integer size unsigned)
  | double (notChar : "char" ∉ words) (notShort : "short" ∉ words) (notUnsigned : "unsigned" ∉ words)
      (isDouble : "double" ∈ words) (longs : words.count "long" = 0) : SizedAs words .double
  | longDouble (notChar : "char" ∉ words) (notShort : "short" ∉ words)
      (notUnsigned : "unsigned" ∉ words) (isDouble : "double" ∈ words) (longs : words.count "long" = 1) :
      SizedAs words .longDouble

/-- Words stand for no type: they ask for a floating type without a sign. -/
structure Unsized (words : List String) : Prop where
  isUnsigned : "unsigned" ∈ words
  isDouble : "double" ∈ words
  notChar : "char" ∉ words
  notShort : "short" ∉ words
  longs : words.count "long" ≤ 1

/-- The same words for sizes are among two lists of words, and `long` is in both never, once, or more often
than that. -/
structure SameSizes (words others : List String) : Prop where
  occur : ∀ size ∈ sizeWords, size ∈ words ↔ size ∈ others
  longs : min (words.count "long") 2 = min (others.count "long") 2

/-! ### The usual spelling of words -/

section

variable {names others : List String}

/-- Words stand for one of the types, or for none. -/
theorem sizedAs_or_unsized (names : List String) : (∃ type, SizedAs names type) ∨ Unsized names := by
  by_cases isChar : "char" ∈ names
  · left
    by_cases sign : "signed" ∈ names
    · exact ⟨_, .signedChar isChar sign⟩
    · by_cases isUnsigned : "unsigned" ∈ names
      · exact ⟨_, .unsignedChar isChar sign isUnsigned⟩
      · exact ⟨_, .char isChar sign isUnsigned⟩
  · have ofSize : ∀ {size}, IntegerSized names size → ∃ type, SizedAs names type := fun sized =>
      ⟨.integer _ (decide ("unsigned" ∈ names)), .integer isChar sized decide_eq_true_iff⟩
    by_cases isShort : "short" ∈ names
    · exact Or.inl (ofSize (.short isShort))
    · rcases Nat.lt_or_ge (names.count "long") 2 with atMostOne | longs
      · have oneOrNone : names.count "long" = 0 ∨ names.count "long" = 1 := by omega
        by_cases isDouble : "double" ∈ names
        · by_cases isUnsigned : "unsigned" ∈ names
          · exact Or.inr ⟨isUnsigned, isDouble, isChar, isShort, by omega⟩
          · rcases oneOrNone with none_ | one
            · exact Or.inl ⟨_, .double isChar isShort isUnsigned isDouble none_⟩
            · exact Or.inl ⟨_, .longDouble isChar isShort isUnsigned isDouble one⟩
        · rcases oneOrNone with none_ | one
          · exact Or.inl (ofSize (.int isShort none_ isDouble))
          · exact Or.inl (ofSize (.long isShort one isDouble))
      · exact Or.inl (ofSize (.longLong isShort longs))

/-- The usual spelling of words without regard to signs. -/
def unsignedSpelling (names : List String) : String :=
  if "char" ∈ names then "char"
  else if "short" ∈ names then "short"
  else if 2 ≤ names.count "long" then "long long"
  else if "long" ∈ names then if "double" ∈ names then "long double" else "long"
  else if "double" ∈ names then "double"
  else "int"

theorem sizedSpelling_eq (names : List String) : sizedSpelling names
    = if "char" ∈ names ∧ "signed" ∈ names then "signed char"
      else if "unsigned" ∈ names then "unsigned " ++ unsignedSpelling names
      else unsignedSpelling names := by
  unfold sizedSpelling unsignedSpelling
  simp only [List.contains_iff_mem, Bool.and_eq_true, ge_iff_le]

theorem mem_of_count_long (longs : names.count "long" = 1) : "long" ∈ names :=
  List.count_pos_iff.mp (by omega)

theorem IntegerSized.unsignedSpelling_eq {size : IntegerSize} (sized : IntegerSized names size)
    (notChar : "char" ∉ names) : unsignedSpelling names = size.spelling := by
  rw [unsignedSpelling, if_neg notChar]
  cases sized with
  | short isShort =>
      rw [if_pos isShort]
      rfl
  | longLong notShort longs =>
      rw [if_neg notShort, if_pos longs]
      rfl
  | long notShort longs notDouble =>
      rw [if_neg notShort, if_neg (by omega), if_pos (mem_of_count_long longs), if_neg notDouble]
      rfl
  | int notShort longs notDouble =>
      rw [if_neg notShort, if_neg (by omega), if_neg (List.count_eq_zero.mp longs), if_neg notDouble]
      rfl

/-- `double` that is neither a character nor an integer has one spelling without `long` and one with it. -/
theorem unsignedSpelling_of_double (notChar : "char" ∉ names) (notShort : "short" ∉ names)
    (isDouble : "double" ∈ names) (longs : names.count "long" ≤ 1) :
    unsignedSpelling names = if "long" ∈ names then "long double" else "double" := by
  rw [unsignedSpelling, if_neg notChar, if_neg notShort, if_neg (by omega), if_pos isDouble, if_pos isDouble]

/-- The usual spelling of words is that of the type that they stand for. -/
theorem SizedAs.sizedSpelling_eq {type : SizedType} (sized : SizedAs names type) :
    sizedSpelling names = type.spelling := by
  rw [Spelling.sizedSpelling_eq]
  cases sized with
  | char isChar noSign notUnsigned =>
      rw [if_neg fun both => noSign both.2, if_neg notUnsigned, unsignedSpelling, if_pos isChar]
      rfl
  | signedChar isChar sign =>
      rw [if_pos ⟨isChar, sign⟩]
      rfl
  | unsignedChar isChar noSign isUnsigned =>
      rw [if_neg fun both => noSign both.2, if_pos isUnsigned, unsignedSpelling, if_pos isChar]
      rfl
  | @integer size unsigned notChar isSize sign =>
      rw [if_neg fun both => notChar both.1, isSize.unsignedSpelling_eq notChar]
      cases unsigned with
      | true =>
          rw [if_pos (sign.mp rfl)]
          rfl
      | false =>
          rw [if_neg fun isUnsigned => Bool.false_ne_true (sign.mpr isUnsigned)]
          rfl
  | double notChar notShort notUnsigned isDouble longs =>
      rw [if_neg fun both => notChar both.1, if_neg notUnsigned,
        unsignedSpelling_of_double notChar notShort isDouble (by omega),
        if_neg (List.count_eq_zero.mp longs)]
      rfl
  | longDouble notChar notShort notUnsigned isDouble longs =>
      rw [if_neg fun both => notChar both.1, if_neg notUnsigned,
        unsignedSpelling_of_double notChar notShort isDouble (by omega),
        if_pos (mem_of_count_long longs)]
      rfl

theorem Unsized.sizedSpelling_eq (unsized : Unsized names) :
    sizedSpelling names = if "long" ∈ names then "unsigned long double" else "unsigned double" := by
  obtain ⟨isUnsigned, isDouble, notChar, notShort, longs⟩ := unsized
  rw [Spelling.sizedSpelling_eq, if_neg fun both => notChar both.1, if_pos isUnsigned,
    unsignedSpelling_of_double notChar notShort isDouble longs]
  split <;> rfl

/-- The usual spelling depends on which sizes there are and how often `long` is said. -/
theorem SameSizes.sizedSpelling_eq (same : SameSizes names others) :
    sizedSpelling names = sizedSpelling others := by
  have twice : 2 ≤ names.count "long" ↔ 2 ≤ others.count "long" := by
    have longs := same.longs
    omega
  have occurs : ∀ size, size ∈ sizeWords → (size ∈ names ↔ size ∈ others) := same.occur
  rw [Spelling.sizedSpelling_eq, Spelling.sizedSpelling_eq, unsignedSpelling, unsignedSpelling]
  simp only [occurs "char" (by decide), occurs "short" (by decide), occurs "long" (by decide),
    occurs "double" (by decide), occurs "signed" (by decide), occurs "unsigned" (by decide), twice]

/-! ### The two ways to a name -/

/-- The words that a spelling consists of. -/
def wordsOfSpelling (spelled : String) : List String :=
  (splitAtMark ' ' spelled.toList).map String.ofList

theorem wordsOfSpelling_intercalate (some_ : names ≠ [])
    (solid : ∀ name ∈ names, ' ' ∉ name.toList) :
    wordsOfSpelling (String.intercalate " " names) = names := by
  have blank : " ".toList = [' '] := rfl
  rw [wordsOfSpelling, String.toList_intercalate, blank, splitAtMark_intercalate some_ solid]
  simp

/-- No word for a size has a blank. -/
theorem solid_of_sizes (sizes : ∀ name ∈ names, name ∈ sizeWords) :
    ∀ name ∈ names, ' ' ∉ name.toList := by
  have solid : ∀ size ∈ sizeWords, ' ' ∉ size.toList := by decide
  exact fun name member => solid name (sizes name member)

/-- A spelling that has a name itself has that of the usual spelling of its words, if these give sizes. -/
theorem lookup_sizedSpelling {scalar : String} (some_ : names ≠ [])
    (sizes : ∀ name ∈ names, name ∈ sizeWords)
    (found : scalarNames.lookup (String.intercalate " " names) = some scalar) :
    scalarNames.lookup (sizedSpelling names) = some scalar := by
  have checked : ∀ entry ∈ scalarNames, (∀ name ∈ wordsOfSpelling entry.1, name ∈ sizeWords) →
      scalarNames.lookup (sizedSpelling (wordsOfSpelling entry.1)) = some entry.2 := by
    decide +kernel
  have again := checked _ (mem_of_lookup found)
  rw [wordsOfSpelling_intercalate some_ (solid_of_sizes sizes)] at again
  exact again sizes

/-- Words for sizes are named by their usual spelling. -/
theorem nameOfWords_of_sizes (some_ : names ≠ []) (sizes : ∀ name ∈ names, name ∈ sizeWords) :
    nameOfWords names = match scalarNames.lookup (sizedSpelling names) with
      | some scalar => .ok (some scalar)
      | none => .error ⟨sizedSpelling names⟩ := by
  have notVoid : (String.intercalate " " names == "void") = false := by
    rw [beq_eq_false_iff_ne]
    intro spelled
    rw [(intercalate_eq_word_iff (by decide) (by decide)).mp spelled] at sizes
    exact absurd (sizes "void" (by simp)) (by decide)
  have areSizes : names.all sizeWords.contains = true := by simpa using sizes
  have usual : ∀ scalar, scalarNames.lookup (String.intercalate " " names) = some scalar →
      scalarNames.lookup (sizedSpelling names) = some scalar :=
    fun _ => lookup_sizedSpelling some_ sizes
  obtain ⟨last, isLast⟩ : ∃ last, names.getLast? = some last :=
    ⟨_, List.getLast?_eq_some_getLast some_⟩
  unfold nameOfWords
  generalize scalarNames = scalars at usual
  rw [isLast]
  dsimp only
  rw [notVoid, areSizes, if_neg Bool.false_ne_true]
  cases found : scalars.lookup (String.intercalate " " names) with
  | some scalar => rw [usual scalar found]
  | none => exact if_pos rfl

end

/-! ### Texts of words for sizes -/

/-- The words of a text. -/
def spelledWords (text : String) : List String := (words text.toList).map String.ofList

/-- A text of words for sizes, at least one, and of qualifiers. -/
structure SizedText (text : String) : Prop where
  sized : ∃ word ∈ spelledWords text, word ∈ sizeWords
  known : ∀ word ∈ spelledWords text, word ∈ sizeWords ∨ word ∈ qualifiers

section

variable {text : String}

/-- No word for a size is a qualifier. -/
theorem not_qualifier_of_size : ∀ size ∈ sizeWords, size ∉ qualifiers := by decide

theorem typeWords_eq (text : String) :
    typeWords text.toList = (spelledWords text).filter fun word => !qualifiers.contains word := rfl

/-- Without qualifiers a text has the same sizes. -/
theorem sameSizes_typeWords (text : String) : SameSizes (spelledWords text) (typeWords text.toList) where
  occur size isSize := by
    have notQualifier := not_qualifier_of_size size isSize
    rw [typeWords_eq, List.mem_filter]
    simp [notQualifier]
  longs := by rw [typeWords_eq, List.count_filter (by decide)]

namespace SizedText

theorem typeWords_ne_nil (sized : SizedText text) : typeWords text.toList ≠ [] := by
  obtain ⟨word, member, isSize⟩ := sized.sized
  exact List.ne_nil_of_mem (((sameSizes_typeWords text).occur word isSize).mp member)

theorem mem_sizeWords (sized : SizedText text) : ∀ word ∈ typeWords text.toList, word ∈ sizeWords := by
  intro word member
  rw [typeWords_eq, List.mem_filter] at member
  refine (sized.known word member.1).resolve_right ?_
  simpa using member.2

/-- A text of words for sizes is named by their usual spelling. -/
theorem baseType_eq (sized : SizedText text) :
    baseType text = match scalarNames.lookup (sizedSpelling (spelledWords text)) with
      | some scalar => .ok (some scalar)
      | none => .error ⟨sizedSpelling (spelledWords text)⟩ := by
  rw [(sameSizes_typeWords text).sizedSpelling_eq]
  exact nameOfWords_of_sizes sized.typeWords_ne_nil sized.mem_sizeWords

theorem baseType_of_sizedAs (sized : SizedText text) {type : SizedType}
    (named : SizedAs (spelledWords text) type) : baseType text = .ok (some type.scalar) := by
  have listed : ∀ type : SizedType, scalarNames.lookup type.spelling = some type.scalar := by
    rintro (_ | _ | _ | ⟨_ | _ | _ | _, _ | _⟩ | _ | _) <;> decide
  rw [sized.baseType_eq, named.sizedSpelling_eq, listed]

theorem baseType_of_unsized (sized : SizedText text) (unsized : Unsized (spelledWords text)) :
    baseType text = .error ⟨sizedSpelling (spelledWords text)⟩ := by
  have unlisted : scalarNames.lookup (sizedSpelling (spelledWords text)) = none := by
    rw [unsized.sizedSpelling_eq]
    split <;> decide
  rw [sized.baseType_eq, unlisted]

theorem sizedText_spelling (type : SizedType) : SizedText type.spelling := by
  rcases type with _ | _ | _ | ⟨_ | _ | _ | _, _ | _⟩ | _ | _ <;> exact ⟨by decide, by decide⟩

/-- The usual spelling of a type names it. -/
theorem baseType_spelling (type : SizedType) : baseType type.spelling = .ok (some type.scalar) := by
  rcases type with _ | _ | _ | ⟨_ | _ | _ | _, _ | _⟩ | _ | _ <;> rfl

/-- What a text of words for sizes is named, with any qualifiers between them, depends on which sizes
are among its words, and on whether `long` is so once or more often. A spelling that has a name itself
has the one that its words stand for. There is no name exactly for an unsigned floating type; otherwise
it is the name of the type that the words stand for, which the usual spelling of that type stands for in
any order. -/
theorem baseType_iff (sized : SizedText text) :
    (∀ other, SizedText other → SameSizes (spelledWords text) (spelledWords other) →
      baseType other = baseType text) ∧
    (∀ scalar, scalarNames.lookup (String.intercalate " " (typeWords text.toList)) = some scalar →
      scalarNames.lookup (sizedSpelling (typeWords text.toList)) = some scalar) ∧
    ((∃ fault, baseType text = .error fault) ↔ Unsized (spelledWords text)) ∧
    (∀ name, baseType text = .ok name ↔
      ∃ type, SizedAs (spelledWords text) type ∧ name = some type.scalar) ∧
    (∀ type : SizedType, (spelledWords text).Perm (spelledWords type.spelling) →
      baseType text = .ok (some type.scalar)) := by
  have same : ∀ other, SizedText other → SameSizes (spelledWords text) (spelledWords other) →
      baseType other = baseType text := by
    intro other otherSized same
    rw [sized.baseType_eq, otherSized.baseType_eq, same.sizedSpelling_eq]
  refine ⟨same, fun _ => lookup_sizedSpelling sized.typeWords_ne_nil sized.mem_sizeWords, ?_, ?_, ?_⟩
  · constructor
    · rintro ⟨fault, fails⟩
      refine (sizedAs_or_unsized (spelledWords text)).resolve_left ?_
      rintro ⟨type, named⟩
      rw [sized.baseType_of_sizedAs named] at fails
      cases fails
    · intro unsized
      exact ⟨_, sized.baseType_of_unsized unsized⟩
  · intro name
    constructor
    · intro isName
      rcases sizedAs_or_unsized (spelledWords text) with ⟨type, named⟩ | unsized
      · rw [sized.baseType_of_sizedAs named] at isName
        exact ⟨type, named, (Except.ok.inj isName).symm⟩
      · rw [sized.baseType_of_unsized unsized] at isName
        cases isName
    · rintro ⟨type, named, rfl⟩
      exact sized.baseType_of_sizedAs named
  · intro type ordered
    have inOrder : SameSizes (spelledWords text) (spelledWords type.spelling) :=
      ⟨fun _ _ => ordered.mem_iff, by rw [ordered.count_eq]⟩
    rw [← same type.spelling (sizedText_spelling type) inOrder, baseType_spelling]

/-- Two separate words `long` make an integer long twice, wherever its sign stands; one does not save an
unsigned `double`. -/
theorem baseType_iff_scatteredSizes :
    SizedText "long\tconst unsigned  struct int long" ∧
    baseType "long\tconst unsigned  struct int long" = .ok (some "ctypes.c_ulonglong") ∧
    SizedText "double const unsigned long" ∧
    ∃ fault, baseType "double const unsigned long" = .error fault := by
  have sized : SizedText "long\tconst unsigned  struct int long" := ⟨by decide, by decide⟩
  have named : SizedAs (spelledWords "long\tconst unsigned  struct int long")
      (.integer .longLong true) :=
    .integer (by decide) (.longLong (by decide) (by decide)) (by decide)
  have noType : SizedText "double const unsigned long" := ⟨by decide, by decide⟩
  have unsized : Unsized (spelledWords "double const unsigned long") :=
    ⟨by decide, by decide, by decide, by decide, by decide⟩
  obtain ⟨_, _, _, named_iff, _⟩ := baseType_iff sized
  obtain ⟨_, _, fails_iff, _, _⟩ := baseType_iff noType
  exact ⟨sized, (named_iff _).mpr ⟨_, named, rfl⟩, noType, fails_iff.mpr unsized⟩

end SizedText

end

end HeaderBindings.Spelling
