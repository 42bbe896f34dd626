/-
Module: HeaderBindings.Proofs.UnreadableTexts
Purpose: Which C types have no name in a module, which character constants have no value, and which
  integers cannot be written.
Main exports: Spelling.UnsignedFloating, Spelling.nameOfWords_eq_error_iff, Spelling.BadEscape,
  Spelling.integerValue_eq_error_iff, Number.writeInteger_eq_none_iff
-/
import HeaderBindings.Proofs.TypeReferences
import HeaderBindings.Spelling.IntegerValue

namespace HeaderBindings.Spelling

open Text Number

/-! ### Types without a name -/

/-- Size words that spell an unsigned floating type. Words that win over `double` hide it: `char`, `short`
and two `long`. -/
structure UnsignedFloating (names : List String) : Prop where
  sizes : ∀ name ∈ names, name ∈ sizeWords
  unsigned : "unsigned" ∈ names
  double : "double" ∈ names
  noChar : "char" ∉ names
  noShort : "short" ∉ names
  longs : names.count "long" < 2

instance (names : List String) : Decidable (UnsignedFloating names) :=
  decidable_of_iff ((∀ name ∈ names, name ∈ sizeWords) ∧
    "unsigned" ∈ names ∧ "double" ∈ names ∧
      "char" ∉ names ∧ "short" ∉ names ∧ names.count "long" < 2)
    ⟨fun ⟨sizes, unsigned, double, noChar, noShort, longs⟩ =>
        ⟨sizes, unsigned, double, noChar, noShort, longs⟩,
      fun floating => ⟨floating.sizes, floating.unsigned, floating.double, floating.noChar,
        floating.noShort, floating.longs⟩⟩

theorem mem_intercalate {c : Char} {separator name : String} {names : List String}
    (inName : c ∈ name.toList) (member : name ∈ names) :
    c ∈ (String.intercalate separator names).toList := by
  induction names with
  | nil => cases member
  | cons first rest ih =>
      cases rest with
      | nil =>
          obtain rfl := List.mem_singleton.mp member
          simpa using inName
      | cons second others =>
          rw [String.intercalate_cons_cons, String.toList_append, String.toList_append,
            List.mem_append, List.mem_append]
          rcases List.mem_cons.mp member with rfl | later
          · exact Or.inl (Or.inl inName)
          · exact Or.inr (ih later)

/-- The words of an unsigned floating type are no C type as they stand, since none has the letters of
both. -/
theorem UnsignedFloating.unknown {names : List String} (floating : UnsignedFloating names) :
    String.intercalate " " names ≠ "void" ∧
      scalarNames.lookup (String.intercalate " " names) = none := by
  have hasS : 's' ∈ (String.intercalate " " names).toList := mem_intercalate (by decide) floating.unsigned
  have hasB : 'b' ∈ (String.intercalate " " names).toList := mem_intercalate (by decide) floating.double
  generalize String.intercalate " " names = spelled at hasS hasB
  constructor
  · rintro rfl
    exact absurd hasS (by decide)
  · have notBoth : ∀ entry ∈ scalarNames,
        ¬ ('s' ∈ entry.1.toList ∧ 'b' ∈ entry.1.toList) := by decide
    rw [List.lookup_eq_none_iff]
    intro entry member
    have other : spelled ≠ entry.1 := by
      rintro rfl
      exact notBoth entry member ⟨hasS, hasB⟩
    simpa using other

theorem UnsignedFloating.sizedSpelling_eq {names : List String} (floating : UnsignedFloating names) :
    sizedSpelling names
      = if "long" ∈ names then "unsigned long double" else "unsigned double" := by
  have longs : ¬ 2 ≤ names.count "long" := Nat.not_le.mpr floating.longs
  unfold sizedSpelling
  by_cases long : "long" ∈ names <;>
    simp [floating.unsigned, floating.double, floating.noChar, floating.noShort, longs, long]

/-- Of the usual spellings of size words, those of unsigned floating types are the only ones that are no C
type. -/
theorem floating_of_lookup_sizedSpelling {names : List String}
    (sizes : ∀ name ∈ names, name ∈ sizeWords)
    (unknown : scalarNames.lookup (sizedSpelling names) = none) : UnsignedFloating names := by
  have differs : ∀ spelling, scalarNames.lookup spelling ≠ none → sizedSpelling names ≠ spelling :=
    fun spelling isKnown same => isKnown (same ▸ unknown)
  unfold sizedSpelling at differs
  by_cases hasChar : "char" ∈ names
  · by_cases signed : "signed" ∈ names
    · exact absurd (by simp [hasChar, signed]) (differs "signed char" (by decide +kernel))
    by_cases unsigned : "unsigned" ∈ names
    · exact absurd (by simp [hasChar, signed, unsigned]) (differs "unsigned char" (by decide +kernel))
    · exact absurd (by simp [hasChar, signed, unsigned]) (differs "char" (by decide +kernel))
  by_cases hasShort : "short" ∈ names
  · by_cases unsigned : "unsigned" ∈ names
    · exact absurd (by simp [hasChar, hasShort, unsigned]) (differs "unsigned short" (by decide +kernel))
    · exact absurd (by simp [hasChar, hasShort, unsigned]) (differs "short" (by decide +kernel))
  by_cases longs : 2 ≤ names.count "long"
  · by_cases unsigned : "unsigned" ∈ names
    · exact absurd (by simp [hasChar, hasShort, longs, unsigned])
        (differs "unsigned long long" (by decide +kernel))
    · exact absurd (by simp [hasChar, hasShort, longs, unsigned]) (differs "long long" (by decide +kernel))
  by_cases double : "double" ∈ names
  · by_cases unsigned : "unsigned" ∈ names
    · exact ⟨sizes, unsigned, double, hasChar, hasShort, Nat.not_le.mp longs⟩
    by_cases long : "long" ∈ names
    · exact absurd (by simp [hasChar, hasShort, longs, unsigned, double, long])
        (differs "long double" (by decide +kernel))
    · exact absurd (by simp [hasChar, hasShort, longs, unsigned, double, long])
        (differs "double" (by decide +kernel))
  by_cases long : "long" ∈ names <;> by_cases unsigned : "unsigned" ∈ names
  · exact absurd (by simp [hasChar, hasShort, longs, unsigned, double, long])
      (differs "unsigned long" (by decide +kernel))
  · exact absurd (by simp [hasChar, hasShort, longs, unsigned, double, long])
      (differs "long" (by decide +kernel))
  · exact absurd (by simp [hasChar, hasShort, longs, unsigned, double, long])
      (differs "unsigned int" (by decide +kernel))
  · exact absurd (by simp [hasChar, hasShort, longs, unsigned, double, long])
      (differs "int" (by decide +kernel))

theorem nameOfWords_eq_error_iff {names : List String} {size : UnknownSize} :
    nameOfWords names = .error size ↔ UnsignedFloating names ∧
      size = ⟨if "long" ∈ names then "unsigned long double" else "unsigned double"⟩ := by
  constructor
  · intro fails
    unfold nameOfWords at fails
    split at fails
    · cases fails
    · dsimp only at fails
      split at fails
      · cases fails
      · split at fails
        · cases fails
        · split at fails
          · rename_i sizes
            split at fails
            · cases fails
            · rename_i unknown
              have floating := floating_of_lookup_sizedSpelling (by simpa using sizes) unknown
              cases fails
              exact ⟨floating, congrArg UnknownSize.mk floating.sizedSpelling_eq⟩
          · cases fails
  · rintro ⟨floating, rfl⟩
    obtain ⟨notVoid, unknown⟩ := floating.unknown
    have notSpelled : scalarNames.lookup (if "long" ∈ names then "unsigned long double"
        else "unsigned double") = none := by
      split <;> decide
    obtain ⟨last, isLast⟩ := Option.ne_none_iff_exists'.mp
      (mt List.getLast?_eq_none_iff.mp (List.ne_nil_of_mem floating.unsigned))
    have sizes : names.all sizeWords.contains = true := by simpa using floating.sizes
    unfold nameOfWords
    rw [isLast]
    dsimp only
    rw [if_neg (by simpa using notVoid), unknown, if_pos sizes, floating.sizedSpelling_eq, notSpelled]

/-- The words of a C type without its qualifiers and pointers. -/
def baseWords (text : String) : List String := typeWords (splitPointerChars text.toList).1

/-- A C type refers to nothing that has a name exactly if its words spell an unsigned floating type. -/
theorem declaredName_eq_error_iff {text : String} {size : UnknownSize} :
    declaredName text = .error size ↔ UnsignedFloating (baseWords text) ∧
      size = ⟨if "long" ∈ baseWords text then "unsigned long double" else "unsigned double"⟩ := by
  rw [← nameOfWords_eq_error_iff, declaredName, baseWords]
  cases nameOfWords (typeWords (splitPointerChars text.toList).1) <;> simp [Except.map]

theorem declaredName_of_typeExpr_error {text : String} {size : UnknownSize}
    (fails : typeExpr text = .error size) : declaredName text = .error size := by
  unfold typeExpr at fails
  unfold declaredName
  dsimp only at fails
  cases named : nameOfWords (typeWords (splitPointerChars text.toList).1) with
  | ok name =>
      rw [named] at fails
      split at fails
      · cases fails
      · split at fails <;> cases fails
  | error other =>
      rw [named] at fails
      split at fails
      · cases fails
        rfl
      · split at fails
        · cases fails
        · cases fails
          rfl

/-! ### Character constants without a value -/

/-- The body of a character constant is an escape that calls for a number and does not have one: `x` is not
followed by hexadecimal digits only, or characters that show digits are not octal ones. -/
inductive BadEscape : List Char → BadDigits → Prop where
  | hexadecimal {letter : Char} {digits : List Char} (isX : letter ∈ ['x', 'X'])
      (unread : readInteger 16 digits = none) :
      BadEscape ('\\' :: letter :: digits) ⟨16, String.ofList digits⟩
  | octal {digit : Char} {digits : List Char} (shown : (digit :: digits).all showsDigit = true)
      (unread : readInteger 8 (digit :: digits) = none) :
      BadEscape ('\\' :: digit :: digits) ⟨8, String.ofList (digit :: digits)⟩

theorem escapeNumber_eq_error_iff {base : Nat} {digits : List Char} {bad : BadDigits} :
    escapeNumber base digits = .error bad ↔
      readInteger base digits = none ∧ bad = ⟨base, String.ofList digits⟩ := by
  unfold escapeNumber
  cases readInteger base digits <;> simp [eq_comm]

theorem charValue_eq_error_iff {body : List Char} {bad : BadDigits} :
    charValue body = .error bad ↔ BadEscape body bad := by
  constructor
  · intro fails
    unfold charValue at fails
    split at fails
    · unfold escapeValue at fails
      split at fails
      · cases fails
      · split at fails
        · rename_i isX
          obtain ⟨unread, rfl⟩ := escapeNumber_eq_error_iff.mp fails
          exact .hexadecimal (by simpa using isX) unread
        · split at fails
          · rename_i shown
            obtain ⟨unread, rfl⟩ := escapeNumber_eq_error_iff.mp fails
            exact .octal shown unread
          · split at fails <;> cases fails
    · cases fails
    · cases fails
  · intro isBad
    cases isBad with
    | @hexadecimal letter digits isX unread =>
        have isLetter : letter = 'x' ∨ letter = 'X' := by simpa using isX
        have bad := escapeNumber_eq_error_iff.mpr ⟨unread, rfl⟩
        simpa [charValue, escapeValue, isLetter] using bad
    | @octal digit digits shown unread =>
        have lower : showsDigit 'x' = false := by decide
        have upper : showsDigit 'X' = false := by decide
        have notX : ¬ (digit = 'x' ∨ digit = 'X') := by
          rintro (rfl | rfl)
          · simp [lower] at shown
          · simp [upper] at shown
        have bad := escapeNumber_eq_error_iff.mpr ⟨unread, rfl⟩
        simpa [charValue, escapeValue, notX, shown] using bad

/-- A text has no integer value to fall back from exactly if it is a character constant with a bad
escape. -/
theorem integerValue_eq_error_iff {text : String} {bad : BadDigits} :
    integerValue text = .error bad ↔
      ∃ body, charBody? (strip text.toList) = some body ∧ BadEscape body bad := by
  unfold integerValue
  dsimp only
  cases charBody? (strip text.toList) with
  | none => simp
  | some body =>
      simp only [Option.some.injEq, exists_eq_left', ← charValue_eq_error_iff]
      cases charValue body <;> simp [Except.map]

end HeaderBindings.Spelling

namespace HeaderBindings.Number

theorem writeInteger_eq_none_iff {n : Int} :
    writeInteger n = none ↔ Nat.pow 10 decimalLimit ≤ n.natAbs := by
  unfold writeInteger
  generalize Nat.pow 10 decimalLimit = limit
  split <;> simp <;> omega

end HeaderBindings.Number
