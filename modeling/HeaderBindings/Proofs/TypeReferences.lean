/-
Module: HeaderBindings.Proofs.TypeReferences
Purpose: The declared type that a type expression uses is the one that its C spelling refers to.
Main exports: TypeExpr.reference?, bindingName_ne_none, RefersBy, nameOfWords_cases,
  declaredName_of_typeExpr
-/
import HeaderBindings.Proofs.NameCharacters
import HeaderBindings.Spelling.TypeExpr

namespace HeaderBindings.Spelling

/-- The name of a declared type that an expression uses: the name inside all pointers, unless it is
empty or bound without any declaration. -/
def TypeExpr.reference? (type : TypeExpr) : Option String :=
  if type.baseName.isEmpty || type.baseName == "None" || type.baseName.startsWith "ctypes." then none
  else some type.baseName

namespace TypeExpr

theorem baseName_pointers (type : TypeExpr) (depth : Nat) :
    (type.pointers depth).baseName = type.baseName := by
  induction depth with
  | zero => rfl
  | succ depth ih => exact ih

theorem reference?_pointers (type : TypeExpr) (depth : Nat) :
    (type.pointers depth).reference? = type.reference? := by
  rw [reference?, baseName_pointers, ← reference?]

theorem reference?_eq_some_iff {type : TypeExpr} {name : String} :
    type.reference? = some name ↔ type.baseName = name ∧ name ≠ "" ∧ name ≠ "None" ∧
      name.startsWith "ctypes." = false := by
  unfold reference?
  constructor
  · intro uses
    split at uses
    · cases uses
    · rename_i declared
      obtain rfl := Option.some.inj uses
      simpa [and_assoc] using declared
  · rintro ⟨rfl, nonempty, notNone, notLibrary⟩
    simp [nonempty, notNone, notLibrary]

@[simp] theorem reference?_noValue : noValue.reference? = none := rfl

/-- Names of the library are not declared. -/
theorem reference?_of_library {name : String} (library : name.startsWith "ctypes." = true) :
    (named name).reference? = none := by
  simp [reference?, baseName, library]

end TypeExpr

/-! ### Names that are never declared -/

theorem library_of_mem_scalarNames : ∀ entry ∈ scalarNames, entry.2.startsWith "ctypes." = true := by
  have spelled : ∀ entry ∈ scalarNames, "ctypes.".toList <+: entry.2.toList := by decide +kernel
  intro entry member
  exact String.startsWith_string_iff.mpr (spelled entry member)

theorem library_of_mem_pointerNames : ∀ entry ∈ pointerNames, entry.2.startsWith "ctypes." = true := by
  have spelled : ∀ entry ∈ pointerNames, "ctypes.".toList <+: entry.2.toList := by decide
  intro entry member
  exact String.startsWith_string_iff.mpr (spelled entry member)

theorem mem_of_lookup {α β : Type} [BEq α] [LawfulBEq α] {key : α} {value : β}
    {entries : List (α × β)} (found : entries.lookup key = some value) : (key, value) ∈ entries := by
  obtain ⟨before, after, rfl, _⟩ := List.lookup_eq_some_iff.mp found
  simp

/-- A keyword is bound with an underscore at its end, so the word for no value is never bound. -/
theorem bindingName_ne_none (text : String) : bindingName text ≠ "None" := by
  intro bound
  have notKeyword := isKeyword_bindingChars text.toList
  rw [← String.toList_ofList (l := bindingChars text.toList), ← bindingName, bound] at notKeyword
  exact absurd notKeyword (by decide)

/-- Words with blanks between them are one word only if it is the only one. -/
theorem intercalate_eq_word_iff {names : List String} {word : String} (nonempty : word ≠ "")
    (solid : ' ' ∉ word.toList) : String.intercalate " " names = word ↔ names = [word] := by
  constructor
  · intro joined
    match names with
    | [] => exact absurd joined.symm nonempty
    | [name] =>
        rw [String.intercalate_singleton] at joined
        rw [joined]
    | first :: second :: rest =>
        rw [← joined, String.intercalate_cons_cons] at solid
        simp at solid
  · rintro rfl
    exact String.intercalate_singleton

/-! ### The name of a type and the type that it refers to -/

/-- Words refer to a declared type by the last of them: they spell neither `void` nor a type of C. -/
structure RefersBy (names : List String) (word : String) : Prop where
  last : names.getLast? = some word
  notVoid : String.intercalate " " names ≠ "void"
  unknown : scalarNames.lookup (String.intercalate " " names) = none
  notSized : ¬ ∀ name ∈ names, name ∈ sizeWords

theorem RefersBy.nameOfWords_eq {names : List String} {word : String} (refers : RefersBy names word) :
    nameOfWords names = .ok (some (bindingName word)) := by
  have notSized : ¬ names.all sizeWords.contains = true := by simpa using refers.notSized
  unfold nameOfWords
  rw [refers.last]
  dsimp only
  rw [if_neg (by simpa using refers.notVoid), refers.unknown, if_neg notSized]

/-- A name given by words is one of the library, or the bound name of the last of them. -/
theorem nameOfWords_cases {names : List String} {name : String}
    (spelled : nameOfWords names = .ok (some name)) :
    name.startsWith "ctypes." = true ∨ ∃ word, RefersBy names word ∧ name = bindingName word := by
  unfold nameOfWords at spelled
  cases last : names.getLast? with
  | none =>
      rw [last] at spelled
      obtain rfl := Option.some.inj (Except.ok.inj spelled)
      exact Or.inl (library_of_mem_scalarNames ("int", "ctypes.c_int") (by decide))
  | some word =>
      rw [last] at spelled
      have refers := RefersBy.mk last
      have library := library_of_mem_scalarNames
      generalize scalarNames = scalars at spelled library refers
      dsimp only at spelled
      split at spelled
      · cases spelled
      · rename_i notVoid
        split at spelled
        · rename_i found
          obtain rfl := Option.some.inj (Except.ok.inj spelled)
          exact Or.inl (library _ (mem_of_lookup found))
        · rename_i unknown
          split at spelled
          · split at spelled
            · rename_i found
              obtain rfl := Option.some.inj (Except.ok.inj spelled)
              exact Or.inl (library _ (mem_of_lookup found))
            · cases spelled
          · rename_i notSized
            obtain rfl := Option.some.inj (Except.ok.inj spelled)
            refine Or.inr ⟨word, refers ?_ unknown ?_, rfl⟩
            · simpa using notVoid
            · simpa using notSized

/-- The name that words refer to is the one that an expression with their name uses. -/
theorem reference?_of_nameOfWords {names : List String} {name : String}
    (spelled : nameOfWords names = .ok (some name)) :
    (TypeExpr.named name).reference?
      = if name.isEmpty || name.startsWith "ctypes." then none else some name := by
  unfold TypeExpr.reference? TypeExpr.baseName
  rcases nameOfWords_cases spelled with library | ⟨word, _, rfl⟩
  · simp [library]
  · have notNone : (bindingName word == "None") = false := by
      simpa using bindingName_ne_none word
    simp [notNone]

/-- Words whose pointers have a name of their own refer to no declared type. -/
theorem nameOfWords_of_pointerName {names : List String} {pointer : String}
    (found : pointerNames.lookup (String.intercalate " " names) = some pointer) :
    ∃ name, nameOfWords names = .ok name ∧
      ∀ bound, name = some bound → bound.startsWith "ctypes." = true := by
  unfold nameOfWords
  split
  · refine ⟨_, rfl, ?_⟩
    rintro _ ⟨rfl⟩
    exact library_of_mem_scalarNames ("int", "ctypes.c_int") (by decide)
  · generalize String.intercalate " " names = spelled at found
    have isKey : spelled = "void" ∨ spelled = "char" ∨ spelled = "wchar_t" := by
      have member := mem_of_lookup found
      simp only [pointerNames, List.mem_cons, Prod.mk.injEq, List.not_mem_nil, or_false] at member
      rcases member with ⟨key, _⟩ | ⟨key, _⟩ | ⟨key, _⟩
      · exact Or.inl key
      · exact Or.inr (Or.inl key)
      · exact Or.inr (Or.inr key)
    rcases isKey with rfl | rfl | rfl
    · exact ⟨none, rfl, by simp⟩
    · refine ⟨some "ctypes.c_char", rfl, ?_⟩
      rintro _ ⟨rfl⟩
      exact library_of_mem_scalarNames ("char", "ctypes.c_char") (by decide)
    · refine ⟨some "ctypes.c_wchar", rfl, ?_⟩
      rintro _ ⟨rfl⟩
      exact library_of_mem_scalarNames ("wchar_t", "ctypes.c_wchar") (by decide)

/-- A C type whose words have a name refers to the declared type that the name is of, if there is one. -/
theorem declaredName_of_nameOfWords {text : String} {name : Option String}
    (found : nameOfWords (typeWords (splitPointerChars text.toList).1) = .ok name) :
    ∃ declared, declaredName text = .ok declared ∧
      declared.filter (!·.isEmpty) = name.bind fun name => (TypeExpr.named name).reference? := by
  refine ⟨name.filter fun name => !name.startsWith "ctypes.", by rw [declaredName, found]; rfl, ?_⟩
  cases name with
  | none => rfl
  | some name =>
      rw [Option.bind_some, reference?_of_nameOfWords found]
      cases library : name.startsWith "ctypes." with
      | true => simp [Option.filter, library]
      | false => cases empty : name.isEmpty <;> simp [Option.filter, library, empty]

theorem map_eq_ok {α β ε : Type} {result : Except ε α} {change : α → β} {changed : β}
    (mapped : result.map change = .ok changed) :
    ∃ value, result = .ok value ∧ change value = changed := by
  cases result with
  | error fault => cases mapped
  | ok value =>
      cases mapped
      exact ⟨value, rfl, rfl⟩

/-- A C type that has a type expression refers to the declared type that the expression uses. -/
theorem declaredName_of_typeExpr {text : String} {type : Option TypeExpr}
    (spelled : typeExpr text = .ok type) :
    ∃ name, declaredName text = .ok name ∧
      name.filter (!·.isEmpty) = type.bind TypeExpr.reference? := by
  have refers := @declaredName_of_nameOfWords text
  unfold typeExpr at spelled
  generalize splitPointerChars text.toList = split at spelled refers
  obtain ⟨body, depth⟩ := split
  dsimp only at spelled refers
  cases depth with
  | zero =>
      obtain ⟨name, found, rfl⟩ := map_eq_ok spelled
      obtain ⟨declared, isDeclared, same⟩ := refers found
      refine ⟨declared, isDeclared, same.trans ?_⟩
      cases name <;> rfl
  | succ inner =>
      dsimp only at spelled
      split at spelled
      · rename_i pointer isPointer
        cases spelled
        obtain ⟨name, found, library⟩ := nameOfWords_of_pointerName isPointer
        obtain ⟨declared, isDeclared, same⟩ := refers found
        refine ⟨declared, isDeclared, same.trans ?_⟩
        rw [Option.bind_some, TypeExpr.reference?_pointers,
          TypeExpr.reference?_of_library (library_of_mem_pointerNames _ (mem_of_lookup isPointer))]
        cases name with
        | none => rfl
        | some name => exact TypeExpr.reference?_of_library (library name rfl)
      · obtain ⟨name, found, rfl⟩ := map_eq_ok spelled
        obtain ⟨declared, isDeclared, same⟩ := refers found
        refine ⟨declared, isDeclared, same.trans ?_⟩
        rw [Option.bind_some, TypeExpr.reference?_pointers]
        cases name <;> rfl

end HeaderBindings.Spelling
